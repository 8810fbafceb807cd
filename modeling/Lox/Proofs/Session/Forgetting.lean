import Lox.Proofs.Grammar.Language
import Lox.Proofs.Respelling.Relining

/-!
# Forgotten distances are not missed

Behind a statement a session forgets the distances of the references outside functions. Nobody can
tell: a session that keeps all distances goes the same way, and so does one that replaces the
forgotten distances by arbitrary ones. So none of them is looked up again, neither by a function that
the statement has left behind nor after a runtime error.
-/
namespace Lox
open Outcome

namespace Session

/-- The session with another table of distances. -/
def withDistances (s : Session) (distances : Distances) : Session :=
  { s with machine := { s.machine with distances } }

/-- Two runs that cannot be told apart: they have given the same and left the same sessions but for
the tables of distances, or they have been interrupted for the same reason. -/
inductive Indistinct {α : Type} :
    EStateM.Result Interruption Session α → EStateM.Result Interruption Session α → Prop where
  | ok {a : α} {s t : Session} (h : t = s.withDistances t.machine.distances) :
    Indistinct (.ok a s) (.ok a t)
  | error {interruption : Interruption} {s t : Session} :
    Indistinct (.error interruption s) (.error interruption t)

end Session

namespace Mirror

/-- The same session, which treats its table in another way. -/
def tending (upkeep : Upkeep) : Mirror where
  respelling := .none
  forms := .regular
  upkeep := upkeep
  reporters := Eq
  reports := Eq
  proper := Respelling.proper_lines id _
  report := by
    rintro r _ d d' rfl hd
    have hsame := hd.eq_of_lines
    rw [Option.map_id] at hsame
    rw [hsame]
    rfl

variable {upkeep : Upkeep} {past : List (Stmt Site)} {s t : Session}

/-- Such sessions are the same but for the table. -/
theorem Shows.eq_withDistances (h : (tending upkeep).Shows past s t) :
    t = s.withDistances t.machine.distances := by
  have hmachine : t.machine = { s.machine with
      store := s.machine.store.respell .none
      distances := t.machine.distances } := h.machine
  have hresults : t.results = s.results.map (Value.respell .none) := h.results
  have hreports : List.Forall₂ Eq s.reports t.reports := h.reports
  have hreporter : s.reporter = t.reporter := h.reporter
  have hvalues : s.results.map (Value.respell .none) = s.results :=
    (List.map_congr_left fun v _ => v.respell_none).trans (List.map_id _)
  rw [List.forall₂_eq_eq_eq] at hreports
  rw [Store.respell_none] at hmachine
  rw [hvalues] at hresults
  have hmode := h.mode
  have hpath := h.path
  have hnext := h.nextSite
  obtain ⟨mode, path, machine, nextSite, results, reporter, reports⟩ := t
  simp only at hmode hpath hnext hresults hreporter hreports hmachine
  subst hmode hpath hnext hresults hreporter hreports
  simp only [Session.withDistances]
  rw [← hmachine]

/-- Their runs cannot be told apart. -/
theorem Shown.indistinct {α : Type} {x y : SessionM α} (h : (tending upkeep).Shown (x s) (y t)) :
    Session.Indistinct (x s) (y t) := by
  cases hx : x s with
  | ok a s' =>
    rw [hx] at h
    cases hy : y t with
    | ok b t' =>
      rw [hy] at h
      obtain ⟨rfl, past, h'⟩ := h
      exact .ok h'.eq_withDistances
    | error j t' =>
      rw [hy] at h
      exact h.elim
  | error i s' =>
    rw [hx] at h
    cases hy : y t with
    | ok b t' =>
      rw [hy] at h
      exact h.elim
    | error j t' =>
      rw [hy] at h
      obtain rfl : i = j := h
      exact .error

/-- A text is its own text on the same lines. -/
theorem relineItem_id : ∀ item : Item, relineItem id item = item
  | .ok statement => congrArg Except.ok (statement.respell_none none)
  | .error (.lexical _) => rfl
  | .error (.syntactic _) => rfl

/-- What a text hands out corresponds to itself. -/
theorem walks_taken {limits : Limits} (source : String) (count : Nat) (next : Site) :
    (tending upkeep).Walks limits next ((TokenStream.ofText source).taken limits.nesting count)
      ((TokenStream.ofText source).taken limits.nesting count) := by
  have hwalks : (tending upkeep).Walks limits next _ _ :=
    walks_reline rfl rfl (TokenStream.genuine_ofText source) count next
  rwa [List.map_congr_left fun item _ => relineItem_id item, List.map_id'] at hwalks

/-- Sources one after the other, with either upkeep. -/
theorem Shows.mapM_walkSource (h : (tending upkeep).Shows past s t) (limits : Limits)
    (sources : List String) :
    (tending upkeep).Shown (sources.mapM (Session.walkSource .forgetting limits) s)
      (sources.mapM (Session.walkSource upkeep limits) t) := by
  induction sources generalizing past s t with
  | nil =>
    rw [List.mapM_nil, List.mapM_nil]
    exact ⟨rfl, past, h⟩
  | cons source sources ih =>
    have hreporter : s.reporter.withFile s.path source = t.reporter.withFile t.path source := by
      rw [show s.reporter = t.reporter from h.reporter, h.path]
    rw [List.mapM_cons, List.mapM_cons]
    refine Shown.bind (h.walkSource hreporter (walks_taken source _ _))
      fun status past' s' t' _ h' => ?_
    exact (ih h').bind fun statuses past'' s'' t'' _ h'' => ⟨rfl, past'', h''⟩

/-- Any number of sources, and any number of steps of another one, with either upkeep. -/
theorem Shows.runThenStep (h : (tending upkeep).Shows past s t) (limits : Limits) (sources : List String)
    (source : String) (count : Nat) :
    (tending upkeep).Shown (Session.runThenStep .forgetting limits sources source count s)
      (Session.runThenStep upkeep limits sources source count t) := by
  refine (h.mapM_walkSource limits sources).bind fun statuses past' s' t' _ h' => ?_
  have hreporter : s'.reporter.withFile s'.path source = t'.reporter.withFile t'.path source := by
    rw [show s'.reporter = t'.reporter from h'.reporter, h'.path]
  simp only [Session.quoteFrom, modify_bind_apply]
  refine Shown.bind ((h'.quoted hreporter).walk (walks_taken source count _) .ok)
    fun status past'' s'' t'' _ h'' => ⟨rfl, past'', h''⟩

end Mirror

namespace Session
variable {mode : Mode} {path : String} {clock : Nat → Float} {reporter : Reporter} {s : Session}

/-- A new session goes the same way whatever it does to its table behind a statement, as long as the
distances inside functions stay. -/
theorem runThenStep_indistinct (hstart : start mode path clock reporter = .ok s) (upkeep : Upkeep)
    (limits : Limits) (sources : List String) (source : String) (count : Nat) :
    Indistinct (runThenStep .forgetting limits sources source count s)
      (runThenStep upkeep limits sources source count s) := by
  have hshows : (Mirror.tending upkeep).Shows [] s s := .start hstart trivial rfl rfl
  exact Mirror.Shown.indistinct (hshows.runThenStep limits sources source count)

/-- Forgetting the distances outside functions behind every statement cannot be told apart from
keeping all distances: through all sources, and at any step of the next one, there are the same
statuses, results, reports, output and frames. It cannot be told apart from replacing the forgotten
distances by arbitrary ones either, so none of them is looked up again. -/
theorem forgetting_unnoticed (hstart : start mode path clock reporter = .ok s) (limits : Limits)
    (sources : List String) (source : String) (count : Nat) :
    Indistinct
        ((do let statuses ← sources.mapM fun source => runSource limits source
             quoteFrom source
             let status ← steps .byDistance limits count (TokenStream.ofText source) .ok
             return (statuses, status)) s)
        (runThenStep .retaining limits sources source count s) ∧
      ∀ distance : Site → Nat,
        Indistinct
          ((do let statuses ← sources.mapM fun source => runSource limits source
               quoteFrom source
               let status ← steps .byDistance limits count (TokenStream.ofText source) .ok
               return (statuses, status)) s)
          (runThenStep (.replacing distance) limits sources source count s) := by
  simp only [runSource_eq_walkSource, steps_eq_walk]
  exact ⟨runThenStep_indistinct hstart .retaining limits sources source count,
    fun distance => runThenStep_indistinct hstart (.replacing distance) limits sources source count⟩

/-- A function that a block leaves behind, in a shell, and a call of it. -/
theorem forgetting_unnoticed_of_closure :
    ∃ s, start .interactive "<in>" (fun _ => 0) (.initial true) = .ok s ∧
      Indistinct
        ((do let statuses ← ["var f;"].mapM fun source => runSource .standard source
             quoteFrom "{ var a = 1; fun g() { return a; } f = g; } f();"
             let status ← steps .byDistance .standard 2
               (TokenStream.ofText "{ var a = 1; fun g() { return a; } f = g; } f();") .ok
             return (statuses, status)) s)
        (runThenStep .retaining .standard ["var f;"] "{ var a = 1; fun g() { return a; } f = g; } f();" 2
          s) := by
  have hstart : start .interactive "<in>" (fun _ => 0) (.initial true) =
      .ok ⟨.interactive, "<in>", .initial fun _ => 0, 0, [],
        { (Reporter.initial true).withFile "<in>" "" with fatal := false }, []⟩ := rfl
  obtain ⟨hretaining, -⟩ := forgetting_unnoticed hstart .standard ["var f;"]
    "{ var a = 1; fun g() { return a; } f = g; } f();" 2
  exact ⟨_, hstart, hretaining⟩

end Session

end Lox
