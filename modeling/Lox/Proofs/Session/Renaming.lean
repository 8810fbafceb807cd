import Lox.Proofs.Respelling.Renaming
import Lox.Proofs.Session.Regular

/-!
# Renaming a local variable is not noticed

A text and the text in which a local variable has another name go the same way: statement by
statement they have the same distances, statuses, output and values, and the same errors, in which
the other name may stand for the old one.
-/
namespace Lox
open Outcome

/-- The statements of a text without errors, with numbered sites. -/
def Reads (depth : Nat) (source : String) (program : List (Stmt Site)) : Prop :=
  ∃ statements, (TokenStream.ofText source).statements depth = statements.map .ok ∧
    (Stmt.numberAll statements 0).1 = program

/-- Errors that are the same, apart from the name of the variable. -/
inductive Diagnostic.Renamed (r : Renaming) : Diagnostic → Diagnostic → Prop where
  | same (d : Diagnostic) : Renamed r d d
  | renamed (cause : RuntimeError.Cause) (line : Option Int) :
    Renamed r (RuntimeError.diagnostic ⟨cause, line⟩)
      (RuntimeError.diagnostic
        ⟨cause.respell fun name => if name = r.name then r.other else name, line⟩)

/-- Reports of the same error at the same place. The line that is quoted there may be another one. -/
structure Report.Renamed (r : Renaming) (a b : Report) : Prop where
  place : b.place.map (fun p => (p.path, p.line)) = a.place.map fun p => (p.path, p.line)
  internal : b.internal = a.internal
  diagnostic : a.diagnostic.Renamed r b.diagnostic

/-- Sessions that are the same, apart from the name of a variable of the program. -/
structure Session.Renamed (r : Renaming) (program : List (Stmt Site)) (s t : Session) : Prop where
  mode : t.mode = s.mode
  path : t.path = s.path
  nextSite : t.nextSite = s.nextSite
  machine : t.machine = { s.machine with store := s.machine.store.respell (r.respelling program) }
  results : t.results = s.results.map (Value.respell (r.respelling program))
  reports : List.Forall₂ (Report.Renamed r) s.reports t.reports

/-- Runs that have ended with the same status, or have been interrupted for the same reason. -/
inductive Session.AlikeBut (r : Renaming) (program : List (Stmt Site)) :
    EStateM.Result Interruption Session Status → EStateM.Result Interruption Session Status →
      Prop where
  | ok {status : Status} {s t : Session} (h : s.Renamed r program t) :
    AlikeBut r program (.ok status s) (.ok status t)
  | error {interruption : Interruption} {s t : Session} :
    AlikeBut r program (.error interruption s) (.error interruption t)

theorem Diagnostic.Respelled.renamed {r : Renaming} {program : List (Stmt Site)} {d d' : Diagnostic}
    (h : d.Respelled (r.respelling program) d') : d.Renamed r d' := by
  have hline : ∀ line : Option Int, line.map (r.respelling program).line = line :=
    fun line => congrFun Option.map_id line
  cases h with
  | same stage message line =>
    rw [hline]
    exact .same _
  | runtime cause line scope =>
    rw [hline]
    by_cases hscope : scope = some r.scope
    · have hspell : (r.respelling program).declared scope =
          fun name => if name = r.name then r.other else name := by
        funext name
        simp [Renaming.respelling, Renaming.declared, hscope]
      rw [hspell]
      exact .renamed cause line
    · have hspell : (r.respelling program).declared scope = fun name => name := by
        funext name
        simp [Renaming.respelling, Renaming.declared, hscope]
      rw [hspell, cause.respell_id]
      exact .same _

theorem Diagnostic.Renamed.line_eq {r : Renaming} {d d' : Diagnostic} (h : d.Renamed r d') :
    d'.line = d.line := by
  cases h <;> rfl

/-- The session of the program with the other name. -/
def Mirror.renamed (r : Renaming) (program : List (Stmt Site)) : Mirror where
  respelling := r.respelling program
  forms := r.forms
  upkeep := .forgetting
  reporters a b := b.path = a.path
  reports := Report.Renamed r
  proper := r.proper
  report := by
    intro a b d d' hpath hd
    refine ⟨?_, rfl, hd.renamed⟩
    simp only [Reporter.report, Reporter.place?, hpath, hd.renamed.line_eq]
    cases a.path <;> cases d.line <;> rfl

namespace Mirror
variable {M : Mirror} {limits : Limits} {r : Renaming} {program past : List (Stmt Site)}
  {s t : Session}

theorem Shows.renamed (h : (renamed r program).Shows past s t) : s.Renamed r program t where
  mode := h.mode
  path := h.path
  nextSite := h.nextSite
  machine := by
    have hmachine := h.machine
    rw [h.same rfl] at hmachine
    exact hmachine
  results := h.results
  reports := h.reports

theorem Shown.alikeBut {x y : EStateM.Result Interruption Session Status}
    (h : (renamed r program).Shown x y) : Session.AlikeBut r program x y := by
  cases x with
  | ok a s' =>
    cases y with
    | ok b t' =>
      obtain ⟨rfl, past, h'⟩ := h
      exact .ok h'.renamed
    | error j t' => exact h.elim
  | error i s' =>
    cases y with
    | ok b t' => exact h.elim
    | error j t' =>
      obtain rfl : i = j := h
      exact .error

theorem items_endMarker (next : Site) : M.Items next (.ok .endMarker) (.ok .endMarker) :=
  .ok ⟨⟨[], 1⟩, 1, rfl⟩ ⟨trivial, fun _ h => by cases h⟩ rfl

theorem walks_replicate (count : Nat) (next : Site) :
    M.Walks limits next (List.replicate count (.ok .endMarker))
      (List.replicate count (.ok .endMarker)) := by
  induction count generalizing next with
  | zero => exact .nil next
  | succ count ih => exact .cons (items_endMarker next) (ih _)

/-- Statements in both spellings, with ends of the input behind them. -/
theorem walks_statements (count : Nat) : ∀ (statements others : List (Stmt Unit)) (next : Site),
    (∀ statement ∈ statements, statement.Read) →
      (∀ root ∈ (Stmt.numberAll statements next).1, M.Admits root ∧
        (root.resolve limits.scoping).1 = .ok ()) →
        (Stmt.numberAll others next).1 =
          (Stmt.numberAll statements next).1.map (Stmt.respell M.respelling none) →
            M.Walks limits next (statements.map .ok ++ List.replicate count (.ok .endMarker))
              (others.map .ok ++ List.replicate count (.ok .endMarker))
  | [], [], next, _, _, _ => walks_replicate count next
  | statement :: statements, other :: others, next, hread, hroots, hothers => by
    obtain ⟨hfirst, hrest⟩ : (other.number next).1 =
          (statement.number next).1.respell M.respelling none ∧
        (Stmt.numberAll others (other.number next).2).1 =
          (Stmt.numberAll statements (statement.number next).2).1.map
            (Stmt.respell M.respelling none) := List.cons.inj hothers
    have hother := Stmt.number_eq_respell M.respelling hfirst
    rw [hother] at hrest
    obtain ⟨hadmits, hresolve⟩ := hroots _ List.mem_cons_self
    have hadvance : Session.advance limits next (.ok statement) = (statement.number next).2 := by
      simp only [Session.advance, hresolve]
    refine .cons (.ok (hread _ List.mem_cons_self) hadmits hother) ?_
    rw [hadvance]
    exact walks_statements count statements others _
      (fun s hs => hread s (List.mem_cons_of_mem _ hs))
      (fun root hroot => hroots root (List.mem_cons_of_mem _ hroot)) hrest
  | [], _ :: _, _, _, _, hothers => by cases hothers
  | _ :: _, [], _, _, _, hothers => by cases hothers

theorem Walks.take {next : Site} {items others : List Item} (h : M.Walks limits next items others)
    (count : Nat) : M.Walks limits next (items.take count) (others.take count) := by
  induction h generalizing count with
  | nil next => simpa using Walks.nil next
  | cons hitem _ ih =>
    cases count with
    | zero => exact .nil _
    | succ count => exact .cons hitem (ih count)

end Mirror

section Renaming
variable {limits : Limits} {r : Renaming} {source other : String} {program : List (Stmt Site)}

/-- All statements of a text without errors have been read, and are regular. -/
theorem Reads.regular {statements : List (Stmt Unit)} (hnesting : 0 < limits.nesting)
    (h : (TokenStream.ofText source).statements limits.nesting = statements.map .ok) :
    ∀ statement ∈ statements, statement.Read ∧ statement.Within .regular True none := by
  obtain ⟨depth, hdepth⟩ := Nat.exists_eq_add_of_lt hnesting
  rw [Nat.zero_add] at hdepth
  rw [hdepth] at h
  have hwhole : Whole ((TokenStream.ofText source).statements (depth + 1)) :=
    whole_statementsUpTo (TokenStream.genuine_ofText source) (Nat.lt_succ_self _)
  rw [h] at hwhole
  exact fun statement hmem => hwhole.regular _ (List.mem_map_of_mem hmem)

/-- The variable of a text without errors can have a name that does not occur in the text. -/
theorem Reads.admits (hnesting : 0 < limits.nesting) (h : Reads limits.nesting source program)
    (hresolves : ∀ root ∈ program, (root.resolve limits.scoping).1 = .ok ())
    (hlocal : r.Local program) (hfresh : ∀ root ∈ program, root.Avoids r.other) :
    ∀ root ∈ program, (Mirror.renamed r program).Admits root := by
  obtain ⟨statements, hread, rfl⟩ := h
  have hscopes := Stmt.ascending_numberAll statements 0
  have hvisits := (Stmt.fresh_numberAll statements .outermost 0).nodup
  rw [allVisits_outermost] at hvisits
  have hnames : ∀ scope ∈ Stmt.allScopes (Stmt.numberAll statements 0).1, scope.names.Nodup := by
    intro scope hscope
    obtain ⟨root, hroot, hmem⟩ := Stmt.mem_allScopes.mp hscope
    exact Stmt.nodup_names_of_resolve (Prod.ext (hresolves root hroot) rfl) hmem
  intro root hroot
  refine ⟨?_, fun v hv => r.spelled hvisits (List.mem_flatMap.mpr ⟨root, hroot, hv⟩)⟩
  obtain ⟨statement, hstatement, start, rfl⟩ := Stmt.exists_of_mem_numberAll hroot
  have hwithin := (Reads.regular hnesting hread statement hstatement).2.number_regular start
  refine hwithin.avoiding (hfresh _ hroot) (fun f _ h => by cases h.1) ?_
  rintro inner hinner f hf ⟨hsite, rfl⟩
  exact hlocal.not_mem_functionNames hscopes hnames (Stmt.mem_allScopes.mpr ⟨_, hroot, hinner⟩)
    (Option.some.inj hsite) hf

/-- The items of two texts without errors of which one is the other with another name. -/
theorem Reads.walks (hnesting : 0 < limits.nesting) (h : Reads limits.nesting source program)
    (hresolves : ∀ root ∈ program, (root.resolve limits.scoping).1 = .ok ())
    (hlocal : r.Local program) (hfresh : ∀ root ∈ program, root.Avoids r.other)
    (hother : Reads limits.nesting other (r.apply program)) (count : Nat) :
    (Mirror.renamed r program).Walks limits 0
      ((TokenStream.ofText source).statements limits.nesting ++
        List.replicate count (.ok .endMarker))
      ((TokenStream.ofText other).statements limits.nesting ++
        List.replicate count (.ok .endMarker)) := by
  have hadmits := h.admits hnesting hresolves hlocal hfresh
  obtain ⟨statements, hread, rfl⟩ := h
  obtain ⟨others, hothers, hnumbered⟩ := hother
  rw [hread, hothers]
  refine Mirror.walks_statements count statements others 0
    (fun statement hmem => (Reads.regular hnesting hread statement hmem).1)
    (fun root hroot => ⟨hadmits root hroot, hresolves root hroot⟩) hnumbered

namespace Session
variable {mode : Mode} {path : String} {clock : Nat → Float} {reporter : Reporter} {s : Session}

/-- A local variable gets a name that occurs nowhere in the text. The bindings of every statement are
the same ones, with the same distances, and the text goes the same way: after any number of steps, and
when it has been run, there is the same status, and the session is the same apart from the name. -/
theorem renaming_unnoticed (hstart : start mode path clock reporter = .ok s)
    (hnesting : 0 < limits.nesting) (hscoping : 0 < limits.scoping)
    (hexecution : 0 < limits.execution) (hprogram : Reads limits.nesting source program)
    (hresolves : ∀ root ∈ program, (root.resolve limits.scoping).1 = .ok ())
    (hlocal : r.Local program) (hfresh : ∀ root ∈ program, root.Avoids r.other)
    (hclock : r.other ≠ "clock") (hother : Reads limits.nesting other (r.apply program)) :
    (∀ root ∈ program, ∀ bindings, root.resolve limits.scoping = (.ok (), bindings) →
        (root.respell (r.respelling program) none).resolve limits.scoping =
          (.ok (), bindings.map (Binding.respell (r.respelling program)))) ∧
      (∀ count, AlikeBut r program
        ((do quoteFrom source
             steps .byDistance limits count (TokenStream.ofText source) .ok) s)
        ((do quoteFrom other
             steps .byDistance limits count (TokenStream.ofText other) .ok) s)) ∧
      AlikeBut r program (runSource limits source .byDistance s)
        (runSource limits other .byDistance s) := by
  have hadmits := hprogram.admits hnesting hresolves hlocal hfresh
  have hwalks := hprogram.walks hnesting hresolves hlocal hfresh hother
  obtain ⟨depth, hdepth⟩ := Nat.exists_eq_add_of_lt hnesting
  rw [Nat.zero_add] at hdepth
  have hshows : (Mirror.renamed r program).Shows [] s s :=
    .start hstart (Ne.symm hclock) (r.declared_none _) rfl
  have hquoted : (Mirror.renamed r program).Shows []
      { s with reporter := s.reporter.withFile s.path source }
      { s with reporter := s.reporter.withFile s.path other } := hshows.quoted rfl
  have hnext : s.nextSite = 0 := (start_eq_ok hstart).2.1
  refine ⟨fun root hroot bindings hresolve => ?_, fun count => ?_, ?_⟩
  · obtain ⟨hwithin, hspelled⟩ := hadmits root hroot
    exact Stmt.resolve_respell_of_ok r.proper hwithin hspelled hresolve
  · have hitems := (hwalks count).take count
    have htaken : ∀ text : String, (TokenStream.ofText text).taken limits.nesting count =
        ((TokenStream.ofText text).statements limits.nesting ++
          List.replicate count (.ok .endMarker : Item)).take count := by
      intro text
      rw [hdepth]
      exact (TokenStream.genuine_ofText text).taken_eq (Nat.lt_succ_self _) count
    rw [← htaken, ← htaken, ← hnext] at hitems
    simp only [quoteFrom, modify_bind_apply, steps_eq_walk]
    exact (hquoted.walk hitems .ok).alikeBut
  · have hitems := hwalks 0
    rw [List.replicate_zero, List.append_nil, List.append_nil, ← hnext] at hitems
    rw [runSource_apply hscoping hexecution, runSource_apply hscoping hexecution]
    refine Mirror.Shown.alikeBut ?_
    refine Mirror.Shown.bind (hquoted.walk hitems .ok) fun status past s' t' _ h' => ?_
    exact ⟨rfl, past, h'.closed⟩

/-- A block in which a global is shadowed. Only the variable of the block gets another name. -/
theorem renaming_unnoticed_of_shadowing :
    ∃ s program, start .interactive "<in>" (fun _ => 0) (.initial true) = .ok s ∧
      Reads Limits.standard.nesting "var a; { var a; print a; } print a;" program ∧
      (∀ root ∈ program, ∀ bindings, root.resolve Limits.standard.scoping = (.ok (), bindings) →
        (root.respell (Renaming.respelling ⟨0, "a", "b"⟩ program) none).resolve
            Limits.standard.scoping =
          (.ok (), bindings.map (Binding.respell (Renaming.respelling ⟨0, "a", "b"⟩ program)))) ∧
      (∀ count, AlikeBut ⟨0, "a", "b"⟩ program
        ((do quoteFrom "var a; { var a; print a; } print a;"
             steps .byDistance .standard count
               (TokenStream.ofText "var a; { var a; print a; } print a;") .ok) s)
        ((do quoteFrom "var a; { var b; print b; } print a;"
             steps .byDistance .standard count
               (TokenStream.ofText "var a; { var b; print b; } print a;") .ok) s)) ∧
      AlikeBut ⟨0, "a", "b"⟩ program
        (runSource .standard "var a; { var a; print a; } print a;" .byDistance s)
        (runSource .standard "var a; { var b; print b; } print a;" .byDistance s) := by
  have hstart : start .interactive "<in>" (fun _ => 0) (.initial true) =
      .ok ⟨.interactive, "<in>", .initial fun _ => 0, 0, [],
        { (Reporter.initial true).withFile "<in>" "" with fatal := false }, []⟩ := rfl
  let a : Token := ⟨.identifier, "a", none, 1⟩
  let b : Token := ⟨.identifier, "b", none, 1⟩
  let program : List (Stmt Site) :=
    [.variable a none, .block 0 [.variable a none, .print (.variable 1 a)], .print (.variable 2 a),
      .endMarker]
  have hprogram : Reads Limits.standard.nesting "var a; { var a; print a; } print a;" program :=
    ⟨[.variable a none, .block () [.variable a none, .print (.variable () a)],
      .print (.variable () a), .endMarker], rfl, rfl⟩
  have hother : Reads Limits.standard.nesting "var a; { var b; print b; } print a;"
      (Renaming.apply ⟨0, "a", "b"⟩ program) :=
    ⟨[.variable a none, .block () [.variable b none, .print (.variable () b)],
      .print (.variable () a), .endMarker], rfl, rfl⟩
  have hresolves : ∀ root ∈ program, (root.resolve Limits.standard.scoping).1 = .ok () := by
    simp only [program, List.forall_mem_cons]
    exact ⟨rfl, rfl, rfl, rfl, by simp⟩
  have hfresh : ∀ root ∈ program, root.Avoids "b" := by
    have hne : a.lexeme ≠ "b" := by decide
    simp only [program, List.forall_mem_cons]
    exact ⟨hne, ⟨hne, hne, trivial⟩, hne, trivial, by simp⟩
  have hlocal : Renaming.Local ⟨0, "a", "b"⟩ program :=
    ⟨⟨0, [], [.variable a none, .print (.variable 1 a)]⟩, List.mem_cons_self, rfl,
      List.mem_cons_self⟩
  exact ⟨_, program, hstart, hprogram, renaming_unnoticed hstart (by decide) (by decide) (by decide)
    hprogram hresolves hlocal hfresh (by decide) hother⟩

end Session

end Renaming

end Lox
