import Lox.Proofs.Scoping.ChainLookup
import Lox.Session.Basic

/-!
# Sessions drive their machine

Whatever a session does, it drives its machine through statements of its sources. So what holds of
machines that have been driven holds of sessions: in particular, a session that searches the chain
for every name goes exactly like one that uses the distances, as long as its sources shadow nothing.
-/
namespace Lox
open Outcome

/-- The statements among the first `count` that are taken from a stream. Behind the end of the input
there is only its marker. -/
def TokenStream.readable (depth : Nat) : Nat → TokenStream → List (Stmt Unit)
  | 0, _ => []
  | count + 1, s =>
    match s.takeStatement depth with
    | (.ok statement, rest) => statement :: readable depth count rest
    | (.error _, rest) => readable depth count rest

/-- The statements of some sources. -/
def program (depth : Nat) (sources : List String) : List (Stmt Unit) :=
  sources.flatMap fun source =>
    (TokenStream.ofText source).readable depth ((TokenStream.ofText source).remaining + 1)

theorem program_append (depth : Nat) (sources more : List String) :
    program depth (sources ++ more) = program depth sources ++ program depth more :=
  List.flatMap_append

theorem program_cons (depth : Nat) (source : String) (sources : List String) :
    program depth (source :: sources) = program depth [source] ++ program depth sources :=
  program_append depth [source] sources

theorem TokenStream.readable_mono {depth count more : Nat} (h : count ≤ more) {s : TokenStream}
    {statement : Stmt Unit} (hmem : statement ∈ s.readable depth count) :
    statement ∈ s.readable depth more := by
  induction count generalizing s more with
  | zero => cases hmem
  | succ count ih =>
    obtain ⟨more, rfl⟩ := Nat.exists_eq_add_of_le' (Nat.le_trans (Nat.succ_le_succ (Nat.zero_le _)) h)
    have hle : count ≤ more := Nat.le_of_succ_le_succ h
    unfold TokenStream.readable at hmem ⊢
    split at hmem
    · rcases List.mem_cons.mp hmem with rfl | hmem
      · exact List.mem_cons_self
      · exact List.mem_cons_of_mem _ (ih hle hmem)
    · exact ih hle hmem

namespace Session
variable {program : List (Stmt Unit)} {limits : Limits} {stream : TokenStream} {s : Session}

/-- The machine of a session has been driven through numbered statements of a program. -/
def Drives (program : List (Stmt Unit)) (s : Session) : Prop :=
  ∃ past, s.machine.Driven past s.nextSite ∧
    ∀ numbered ∈ past, ∃ statement ∈ program, ∃ next, (statement.number next).1 = numbered

theorem Drives.start {mode : Mode} {path : String} {clock : Nat → Float} {reporter : Reporter}
    (h : Session.start mode path clock reporter = .ok s) : s.Drives program := by
  have hs : s.machine = .initial clock ∧ s.nextSite = 0 := by
    unfold Session.start at h
    cases mode with
    | interactive =>
      cases h
      exact ⟨rfl, rfl⟩
    | script =>
      simp only at h
      split at h
      · cases h
      · cases h
        exact ⟨rfl, rfl⟩
  refine ⟨[], ?_, by simp⟩
  rw [hs.1, hs.2]
  exact .initial clock

/-- Only store, current frame, table and next site matter. -/
theorem Drives.change (h : s.Drives program) {s' : Session}
    (hstore : s'.machine.store = s.machine.store) (hcurrent : s'.machine.current = s.machine.current)
    (hdistances : s'.machine.distances = s.machine.distances) (hnext : s'.nextSite = s.nextSite) :
    s'.Drives program := by
  obtain ⟨past, hdriven, hpast⟩ := h
  refine ⟨past, ?_, hpast⟩
  rw [hnext]
  exact hdriven.change hstore hcurrent hdistances

/-- Where a program shadows nothing, its statements are executed alike by chain and by distance. -/
theorem Drives.interpret_byChain (h : s.Drives program) (hclear : Unshadowed program)
    {statement : Stmt Unit} (hmem : statement ∈ program) {numbered : Stmt Site}
    {bindings : List Binding} {after : Site} (hs : Taken s.nextSite numbered bindings after)
    (hnumber : statement.number s.nextSite = (numbered, after)) (rounds depth : Nat) :
    Access.byChain.interpret rounds depth numbered
        { s.machine with distances := s.machine.distances.record bindings } =
      Access.byDistance.interpret rounds depth numbered
        { s.machine with distances := s.machine.distances.record bindings } := by
  obtain ⟨past, hdriven, hpast⟩ := h
  have hsteady := hdriven.steady.pass hs
  obtain ⟨T, hT⟩ := hsteady.typed
  have hall : ∀ root ∈ past ++ [numbered], ∃ statement ∈ program, ∃ next,
      (statement.number next).1 = root := by
    intro root hroot
    rcases List.mem_append.mp hroot with hold | hnew
    · exact hpast root hold
    · rw [List.mem_singleton.mp hnew]
      exact ⟨statement, hmem, s.nextSite, by rw [hnumber]⟩
  have hfollows : Access.byChain.Follows
      (.behind (past ++ [numbered]) (s.machine.distances.record bindings)) := by
    refine Access.byChain_follows fun v hv => ?_
    obtain ⟨root, hroot, hvisit⟩ := hv
    obtain ⟨statement, hstatement, next, rfl⟩ := hall root hroot
    have hinside : (statement.number next).1.inside.Sublist (Stmt.allInside program) := by
      rw [Stmt.inside_number]
      exact Stmt.inside_sublist hstatement
    have hhold : Surroundings.outermost.Hold (statement.number next).1.occurrences := trivial
    refine hclear.clear ((statement.number next).1.stands_of_mem_visits hhold hinside hvisit) ?_
    rintro name (rfl | ⟨other, hother, hdeclared⟩)
    · exact List.mem_cons_self
    · obtain ⟨statement, hstatement, next, rfl⟩ := hall other hother
      refine List.mem_cons_of_mem _ (Stmt.declaration_mem_all.mpr ?_)
      rw [← Stmt.declaration_mem, Stmt.occurrences_number, Stmt.declaration_mem] at hdeclared
      exact List.mem_flatMap.mpr ⟨statement, hstatement, hdeclared⟩
  exact (hfollows.keeps_interpret hT.globals (hdriven.steady.placed hs) rounds depth _ hT
    hsteady.current).1

/-- The session behind a statement that has been resolved. -/
def recorded (s : Session) (bindings : List Binding) (after : Site) : Session :=
  { s with
    nextSite := after
    machine := { s.machine with distances := s.machine.distances.record bindings } }

section Resolve
variable {statement : Stmt Unit} {numbered : Stmt Site} {bindings : List Binding} {after : Site}

theorem resolve_of_ok (hnumber : statement.number s.nextSite = (numbered, after))
    (hresolve : numbered.resolve limits.scoping = (.ok (), bindings)) :
    resolve limits statement s = .ok (.ok (numbered, bindings)) (s.recorded bindings after) := by
  simp only [resolve, get_bind_apply, hnumber, hresolve]
  rfl

theorem resolve_of_error (hnumber : statement.number s.nextSite = (numbered, after))
    {error : ResolutionError}
    (hresolve : numbered.resolve limits.scoping = (.error (.error error), bindings)) :
    resolve limits statement s = .ok (.error error) s := by
  simp only [resolve, get_bind_apply, hnumber, hresolve]
  rfl

theorem resolve_of_fault (hnumber : statement.number s.nextSite = (numbered, after)) {fault : Fault}
    (hresolve : numbered.resolve limits.scoping = (.error (.fault fault), bindings)) :
    resolve limits statement s = .error (.fault fault) (s.recorded bindings after) := by
  simp only [resolve, get_bind_apply, hnumber, hresolve]
  rfl

/-- A statement that comes out resolved has been numbered, and its bindings have been recorded. -/
theorem of_resolve_eq_ok {t : Session}
    (h : resolve limits statement s = .ok (.ok (numbered, bindings)) t) :
    ∃ after, statement.number s.nextSite = (numbered, after) ∧
      numbered.resolve limits.scoping = (.ok (), bindings) ∧ t = s.recorded bindings after := by
  cases hnumber : statement.number s.nextSite with
  | mk other after =>
    cases hresolve : other.resolve limits.scoping with
    | mk resolution found =>
      cases resolution with
      | error failure =>
        cases failure with
        | error error =>
          rw [resolve_of_error hnumber hresolve] at h
          cases h
        | fault fault =>
          rw [resolve_of_fault hnumber hresolve] at h
          cases h
      | ok _ =>
        rw [resolve_of_ok hnumber hresolve] at h
        cases h
        exact ⟨after, rfl, hresolve, rfl⟩

end Resolve

/-- The machine of a session behind a statement that has been executed. -/
def executed (s : Session) (bindings : List Binding) (m : Machine) : Session :=
  { s with machine := { m with distances := m.distances.forget (transient bindings) } }

/-- Executing a statement, if it does not stop the session, leaves its machine behind it. -/
theorem execute_eq_ok {numbered : Stmt Site} {bindings : List Binding} {access : Access}
    {outcome : Except RuntimeError Value} {s' : Session}
    (h : execute limits numbered bindings access s = .ok outcome s') :
    s' = s.executed bindings
      (final (access.interpret limits.rounds limits.execution numbered s.machine)) := by
  simp only [execute, get_bind_apply] at h
  cases hrun : access.interpret limits.rounds limits.execution numbered s.machine with
  | ok value m =>
    simp only [hrun] at h
    cases h
    rfl
  | error stop m =>
    simp only [hrun] at h
    cases stop with
    | error error =>
      cases h
      rfl
    | fault fault => cases h
    | unfinished => cases h

theorem Drives.keep {σ : Type} (h : s.Drives program) {statement : Stmt σ} {value : Value}
    {s' : Session} (hkeep : keep statement value s = .ok () s') : s'.Drives program := by
  simp only [Session.keep, modify_apply, EStateM.Result.ok.injEq, true_and] at hkeep
  subst hkeep
  split <;> exact h.change rfl rfl rfl rfl

/-- The statement of a step, numbered and resolved. -/
theorem Drives.recorded (h : s.Drives program) {statement : Stmt Unit} (hmem : statement ∈ program)
    {numbered : Stmt Site} {bindings : List Binding} {after : Site}
    (hs : Taken s.nextSite numbered bindings after)
    (hnumber : statement.number s.nextSite = (numbered, after)) :
    ((s.recorded bindings after).executed bindings (s.recorded bindings after).machine).Drives
        program ∧
      ∀ rounds depth, ((s.recorded bindings after).executed bindings
        (final (Run.interpret rounds depth numbered (s.recorded bindings after).machine))).Drives
          program := by
  obtain ⟨past, hdriven, hpast⟩ := h
  obtain ⟨depth, hresolve⟩ := hs.resolvable
  have hall : ∀ root ∈ past ++ [numbered], ∃ statement ∈ program, ∃ next,
      (statement.number next).1 = root := by
    intro root hroot
    rcases List.mem_append.mp hroot with hold | hnew
    · exact hpast root hold
    · rw [List.mem_singleton.mp hnew]
      exact ⟨statement, hmem, s.nextSite, by rw [hnumber]⟩
  have hlast : numbered ∈ past ++ [numbered] := List.mem_append_right _ List.mem_cons_self
  exact ⟨⟨_, (hdriven.pass hs).forget hlast hresolve, hall⟩,
    fun rounds depth => ⟨_, (hdriven.execute hs rounds depth).forget hlast hresolve, hall⟩⟩

/-- A step takes a statement from the stream and keeps the machine of the session driven. -/
theorem Drives.step (h : s.Drives program)
    (hmem : ∀ statement rest, stream.takeStatement limits.nesting = (.ok statement, rest) →
      statement ∈ program) {run : Bool} {status : Status} {rest : TokenStream} {s' : Session}
    (hstep : step limits stream run .byDistance s = .ok (status, rest) s') :
    rest = (stream.takeStatement limits.nesting).2 ∧ s'.Drives program := by
  unfold Session.step at hstep
  cases htake : stream.takeStatement limits.nesting with
  | mk item behind =>
    cases item with
    | error error =>
      simp only [htake] at hstep
      cases hstep
      exact ⟨rfl, h.change rfl rfl rfl rfl⟩
    | ok statement =>
      simp only [htake] at hstep
      obtain ⟨outcome, t, hr, hrest⟩ := bind_eq_ok.mp hstep
      cases hnumber : statement.number s.nextSite with
      | mk numbered after =>
        cases hresolve : numbered.resolve limits.scoping with
        | mk resolution bindings =>
          cases resolution with
          | error failure =>
            cases failure with
            | error error =>
              rw [resolve_of_error hnumber hresolve] at hr
              cases hr
              cases hrest
              exact ⟨rfl, h.change rfl rfl rfl rfl⟩
            | fault fault =>
              rw [resolve_of_fault hnumber hresolve] at hr
              cases hr
          | ok _ =>
            rw [resolve_of_ok hnumber hresolve] at hr
            cases hr
            have hs : Taken s.nextSite numbered bindings after :=
              ⟨⟨stream, limits.nesting, statement, by rw [htake], hnumber⟩, limits.scoping, hresolve⟩
            obtain ⟨hpassed, hexecuted⟩ := h.recorded (hmem statement behind htake) hs hnumber
            cases run with
            | false =>
              obtain ⟨_, u, hforget, hlast⟩ := bind_eq_ok.mp hrest
              cases hforget
              split at hlast <;> cases hlast <;> exact ⟨rfl, hpassed⟩
            | true =>
              obtain ⟨value, u, he, hlast⟩ := bind_eq_ok.mp hrest
              obtain rfl := execute_eq_ok he
              have hbehind := hexecuted limits.rounds limits.execution
              cases value with
              | error error =>
                cases hlast
                exact ⟨rfl, hbehind.change rfl rfl rfl rfl⟩
              | ok value =>
                simp only [get_bind_apply] at hlast
                split at hlast
                · cases hlast
                  exact ⟨rfl, hbehind⟩
                · obtain ⟨_, v, hkeep, hlast⟩ := bind_eq_ok.mp hlast
                  cases hlast
                  exact ⟨rfl, hbehind.keep hkeep⟩

/-- Where a program shadows nothing, a step by chain is a step by distance. -/
theorem Drives.step_byChain (h : s.Drives program) (hclear : Unshadowed program)
    (hmem : ∀ statement rest, stream.takeStatement limits.nesting = (.ok statement, rest) →
      statement ∈ program) (run : Bool) :
    Session.step limits stream run .byChain s = Session.step limits stream run .byDistance s := by
  unfold Session.step
  cases htake : stream.takeStatement limits.nesting with
  | mk item rest =>
    cases item with
    | error error => rfl
    | ok statement =>
      simp only [bind_apply]
      cases hnumber : statement.number s.nextSite with
      | mk numbered after =>
        cases hresolve : numbered.resolve limits.scoping with
        | mk resolution bindings =>
          cases resolution with
          | error failure =>
            cases failure with
            | error error => rw [resolve_of_error hnumber hresolve]
            | fault fault => rw [resolve_of_fault hnumber hresolve]
          | ok _ =>
            rw [resolve_of_ok hnumber hresolve]
            have hs : Taken s.nextSite numbered bindings after :=
              ⟨⟨stream, limits.nesting, statement, by rw [htake], hnumber⟩, limits.scoping, hresolve⟩
            have hinterpret := h.interpret_byChain hclear (hmem statement rest htake) hs hnumber
              limits.rounds limits.execution
            have hexecute : Session.execute limits numbered bindings .byChain
                  (s.recorded bindings after) =
                Session.execute limits numbered bindings .byDistance
                  (s.recorded bindings after) := by
              simp only [Session.execute, get_bind_apply, Session.recorded, hinterpret]
            cases run with
            | false => rfl
            | true => simp only [if_true, bind_apply, hexecute]

/-- Where a program shadows nothing, any number of steps by chain are the same by distance. -/
theorem Drives.steps_byChain {count : Nat} (h : s.Drives program) (hclear : Unshadowed program)
    (status : Status)
    (hmem : ∀ statement ∈ stream.readable limits.nesting count, statement ∈ program) :
    steps .byChain limits count stream status s = steps .byDistance limits count stream status s ∧
      ∀ {result s'}, steps .byDistance limits count stream status s = .ok result s' →
        s'.Drives program := by
  induction count generalizing stream status s with
  | zero => exact ⟨rfl, fun hs => by cases hs; exact h⟩
  | succ count ih =>
    have htaken : ∀ statement rest, stream.takeStatement limits.nesting = (.ok statement, rest) →
        statement ∈ program := by
      intro statement rest htake
      refine hmem statement ?_
      simp only [TokenStream.readable, htake]
      exact List.mem_cons_self
    have hrest : ∀ statement ∈ (stream.takeStatement limits.nesting).2.readable limits.nesting count,
        statement ∈ program := by
      intro statement hstatement
      refine hmem statement ?_
      unfold TokenStream.readable
      cases htake : stream.takeStatement limits.nesting with
      | mk item rest =>
        rw [htake] at hstatement
        cases item with
        | error error => exact hstatement
        | ok other => exact List.mem_cons_of_mem _ hstatement
    simp only [steps, bind_apply, get_apply, h.step_byChain hclear htaken]
    generalize (decide (s.mode = .interactive) || decide (status = .ok)) = run
    cases hstep : Session.step limits stream run .byDistance s with
    | error interruption t => exact ⟨rfl, fun hs => by cases hs⟩
    | ok outcome t =>
      obtain ⟨ended, rest⟩ := outcome
      obtain ⟨rfl, ht⟩ := h.step htaken hstep
      cases ended with
      | done => exact ⟨rfl, fun hs => by cases hs; exact ht⟩
      | ok => exact ih ht _ hrest
      | grammarError => exact ih ht _ hrest
      | runtimeError =>
        by_cases hmode : s.mode = .script
        · simp only [hmode, if_true]
          exact ⟨trivial, fun hs => by cases hs; exact ht⟩
        · simp only [hmode, if_false]
          exact ih ht _ hrest

/-- The end of a source changes nothing but whether the end of the input has been executed. -/
theorem Drives.runStream_byChain (h : s.Drives program) (hclear : Unshadowed program)
    (hmem : ∀ statement ∈ stream.readable limits.nesting (stream.remaining + 1),
      statement ∈ program) :
    runStream limits stream .byChain s = runStream limits stream .byDistance s ∧
      ∀ {result s'}, runStream limits stream .byDistance s = .ok result s' → s'.Drives program := by
  obtain ⟨heq, hends⟩ := h.steps_byChain hclear .ok hmem
  simp only [runStream, bind_apply, heq]
  refine ⟨trivial, ?_⟩
  cases hsteps : steps .byDistance limits (stream.remaining + 1) stream .ok s with
  | error interruption t => exact fun hs => by cases hs
  | ok status t =>
    intro result s' hs
    have ht := hends hsteps
    simp only [modify_apply, pure_apply, EStateM.Result.ok.injEq] at hs
    rw [← hs.2]
    split <;> exact ht.change rfl rfl rfl rfl

theorem Drives.runSource_byChain {source : String} (h : s.Drives program)
    (hclear : Unshadowed program)
    (hmem : ∀ statement ∈ Lox.program limits.nesting [source], statement ∈ program) :
    runSource limits source .byChain s = runSource limits source .byDistance s ∧
      ∀ {result s'}, runSource limits source .byDistance s = .ok result s' → s'.Drives program := by
  have hquoted : Session.Drives program { s with reporter := s.reporter.withFile s.path source } :=
    h.change rfl rfl rfl rfl
  rw [Lox.program, List.flatMap_singleton] at hmem
  unfold runSource
  generalize TokenStream.ofText source = stream at hmem ⊢
  simp only [quoteFrom, modify_bind_apply]
  exact hquoted.runStream_byChain hclear hmem

theorem Drives.mapM_runSource_byChain {sources : List String} (h : s.Drives program)
    (hclear : Unshadowed program)
    (hmem : ∀ statement ∈ Lox.program limits.nesting sources, statement ∈ program) :
    (sources.mapM fun source => runSource limits source .byChain) s =
        (sources.mapM fun source => runSource limits source .byDistance) s ∧
      ∀ {result s'}, (sources.mapM fun source => runSource limits source .byDistance) s =
        .ok result s' → s'.Drives program := by
  induction sources generalizing s with
  | nil =>
    rw [List.mapM_nil, List.mapM_nil]
    exact ⟨rfl, fun hs => by cases hs; exact h⟩
  | cons source sources ih =>
    rw [program_cons] at hmem
    have hfirst : ∀ statement ∈ Lox.program limits.nesting [source], statement ∈ program :=
      fun statement hstatement => hmem statement (List.mem_append_left _ hstatement)
    have hrest : ∀ statement ∈ Lox.program limits.nesting sources, statement ∈ program :=
      fun statement hstatement => hmem statement (List.mem_append_right _ hstatement)
    obtain ⟨heq, hends⟩ := h.runSource_byChain hclear hfirst
    rw [List.mapM_cons, List.mapM_cons]
    simp only [bind_apply, heq]
    cases hrun : runSource limits source .byDistance s with
    | error interruption t => exact ⟨rfl, fun hs => by cases hs⟩
    | ok status t =>
      obtain ⟨heq', hends'⟩ := ih (hends hrun) hrest
      simp only [heq']
      refine ⟨trivial, ?_⟩
      cases hmap : (sources.mapM fun source => runSource limits source .byDistance) t with
      | error interruption u => exact fun hs => by cases hs
      | ok statuses u =>
        intro result s' hs
        cases hs
        exact hends' hmap

/-- Where sources shadow nothing, a session that looks up every name along the chain goes exactly
like one that uses the distances: through all sources, and at any step of the next one. -/
theorem chain_lookup_agrees {mode : Mode} {path : String} {clock : Nat → Float}
    {reporter : Reporter} (hstart : start mode path clock reporter = .ok s) {sources : List String}
    {source : String} (hclear : Unshadowed (Lox.program limits.nesting (sources ++ [source])))
    {count : Nat} (hcount : count ≤ (TokenStream.ofText source).remaining + 1) :
    (do let statuses ← sources.mapM fun source => runSource limits source .byChain
        quoteFrom source
        let status ← steps .byChain limits count (TokenStream.ofText source) .ok
        return (statuses, status)) s =
      (do let statuses ← sources.mapM fun source => runSource limits source .byDistance
          quoteFrom source
          let status ← steps .byDistance limits count (TokenStream.ofText source) .ok
          return (statuses, status)) s := by
  have happend := program_append limits.nesting sources [source]
  have hfront : ∀ statement ∈ Lox.program limits.nesting sources,
      statement ∈ Lox.program limits.nesting (sources ++ [source]) := by
    rw [happend]
    exact fun _ hmem => List.mem_append_left _ hmem
  have hlast : ∀ statement ∈ (TokenStream.ofText source).readable limits.nesting count,
      statement ∈ Lox.program limits.nesting (sources ++ [source]) := by
    intro statement hmem
    rw [happend, Lox.program, Lox.program, List.flatMap_singleton]
    exact List.mem_append_right _ (TokenStream.readable_mono hcount hmem)
  have hdrives : s.Drives (Lox.program limits.nesting (sources ++ [source])) := .start hstart
  obtain ⟨heq, hends⟩ := hdrives.mapM_runSource_byChain hclear hfront
  simp only [bind_apply, heq]
  cases hrun : (sources.mapM fun source => runSource limits source .byDistance) s with
  | error interruption t => rfl
  | ok statuses t =>
    have hquoted : Session.Drives (Lox.program limits.nesting (sources ++ [source]))
        { t with reporter := t.reporter.withFile t.path source } :=
      (hends hrun).change rfl rfl rfl rfl
    obtain ⟨hsteps, -⟩ := hquoted.steps_byChain hclear .ok hlast
    simp only [quoteFrom, modify_apply, hsteps]

/-- The first two steps of `{ var a; print a; }` in a shell that has run `var b;` before. -/
theorem chain_lookup_agrees_of_block :
    ∃ s, start .interactive "<in>" (fun _ => 0) (.initial true) = .ok s ∧
      (do let statuses ← ["var b;"].mapM fun source => runSource .standard source .byChain
          quoteFrom "{ var a; print a; }"
          let status ← steps .byChain .standard 2 (TokenStream.ofText "{ var a; print a; }") .ok
          return (statuses, status)) s =
        (do let statuses ← ["var b;"].mapM fun source => runSource .standard source .byDistance
            quoteFrom "{ var a; print a; }"
            let status ← steps .byDistance .standard 2 (TokenStream.ofText "{ var a; print a; }") .ok
            return (statuses, status)) s := by
  have hprogram : Lox.program Limits.standard.nesting ["var b;", "{ var a; print a; }"] =
      [.variable ⟨.identifier, "b", none, 1⟩ none, .endMarker, .endMarker, .endMarker,
        .block () [.variable ⟨.identifier, "a", none, 1⟩ none,
          .print (.variable () ⟨.identifier, "a", none, 1⟩)],
        .endMarker, .endMarker, .endMarker, .endMarker, .endMarker, .endMarker, .endMarker,
        .endMarker] := rfl
  have hclear : Unshadowed (Lox.program Limits.standard.nesting ["var b;", "{ var a; print a; }"]) := by
    rw [hprogram]
    constructor
    · simp [globalOccurrences, Stmt.allOccurrences, Stmt.occurrences, Stmt.allInside, Stmt.inside,
        Stmt.bodyOccurrences, Expr.occurrences, Expr.names, referencesOf, Occurrence.isReference]
    · simp only [Stmt.allInside, Stmt.inside, Stmt.bodyOccurrences, Stmt.allOccurrences,
        Stmt.occurrences, Expr.occurrences, Expr.names]
      intro scope hscope
      obtain rfl : scope = [.declaration "a", .reference "a"] := by simpa using hscope
      intro before name after heq hafter
      rcases before with _ | ⟨o, _ | ⟨o', before⟩⟩ <;> simp_all
  have hstart : start .interactive "<in>" (fun _ => 0) (.initial true) =
      .ok ⟨.interactive, "<in>", .initial fun _ => 0, 0, [],
        { (Reporter.initial true).withFile "<in>" "" with fatal := false }, []⟩ := rfl
  exact ⟨_, hstart, chain_lookup_agrees hstart hclear (by decide)⟩

end Session

end Lox
