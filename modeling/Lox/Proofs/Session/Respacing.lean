import Lox.Proofs.Layout.Respacing
import Lox.Proofs.Session.Histories

/-!
# Layout does not matter

Two sessions are given texts of which one is always the other with other space between its lexemes.
They mirror one and the same session that is given everything on one line, so there are the same
statuses, output, values and errors in both of them.
-/
namespace Lox
open Outcome

namespace Session

/-- Sessions that have gone the same way with texts in different layouts, from a new session on. -/
inductive Respaced : Session → Session → Prop where
  | start {mode : Mode} {path : String} {clock : Nat → Float} {reporter : Reporter} {s : Session}
    (h : start mode path clock reporter = .ok s) : Respaced s s
  | quoted {s t : Session} (hs : Respaced s t) (source other : String) :
    Respaced { s with reporter := s.reporter.withFile s.path source }
      { t with reporter := t.reporter.withFile t.path other }
  | runSource {s t s' t' : Session} {source other : String} {status status' : Status}
    {limits : Limits} (hs : Respaced s t) (h : Lox.Respaced source other)
    (hrun : runSource limits source .byDistance s = .ok status s')
    (hrun' : runSource limits other .byDistance t = .ok status' t') : Respaced s' t'
  | step {s t s' t' : Session} {stream other : TokenStream} {ended ended' : Status × TokenStream}
    {limits : Limits} {run : Bool} (hs : Respaced s t) (h : stream.Respaced other)
    (hstep : step limits stream run .byDistance s = .ok ended s')
    (hstep' : step limits other run .byDistance t = .ok ended' t') : Respaced s' t'
  | pop {s t s' t' : Session} {text text' : Option String} (hs : Respaced s t)
    (hpop : pop? s = .ok text s') (hpop' : pop? t = .ok text' t') : Respaced s' t'
  | takeOutput {s t : Session} (hs : Respaced s t) : Respaced s.takeOutput.2 t.takeOutput.2
  | takeReports {s t : Session} (hs : Respaced s t) : Respaced s.takeReports.2 t.takeReports.2

end Session

namespace Mirror
variable {past : List (Stmt Site)} {s t e : Session}

/-- Runs that give the same answer and leave sessions with a common mirror, or have been interrupted
for the same reason. -/
def EndTwins {α : Type} (same : α → α → Prop) : EStateM.Result Interruption Session α →
    EStateM.Result Interruption Session α → Prop
  | .ok a s, .ok b t => same a b ∧ Twins s t
  | .error i _, .error j _ => i = j
  | _, _ => False

theorem EndTwins.of_shown {α : Type} {x y z : EStateM.Result Interruption Session α}
    (hx : unlined.Shown x z) (hy : unlined.Shown y z) : EndTwins Eq x y := by
  cases z with
  | ok c e =>
    cases x with
    | error i s => exact hx.elim
    | ok a s =>
      cases y with
      | error j t => exact hy.elim
      | ok b t =>
        obtain ⟨rfl, past, hs⟩ := hx
        obtain ⟨rfl, past', ht⟩ := hy
        exact ⟨rfl, past, past', e, hs, ht⟩
  | error k e =>
    cases x with
    | ok a s => exact hx.elim
    | error i s =>
      cases y with
      | ok b t => exact hy.elim
      | error j t => exact Eq.trans hx (Eq.symm hy)

/-- A run of a source, mirrored by a walk along its items on one line. -/
theorem Shows.runSource (h : unlined.Shows past s e) (limits : Limits) (source : String) :
    unlined.Shown (Session.runSource limits source .byDistance s)
      ((do let status ← Session.walk .forgetting limits
              ((items limits.nesting source).map (relineItem fun _ => 0)) .ok
           modify Session.closed
           return status : SessionM Status) e) := by
  have hquoted : unlined.Shows past
      { s with reporter := s.reporter.withFile s.path source } { e with reporter := e.reporter } :=
    h.quoted trivial
  have hwalks : unlined.Walks limits s.nextSite (items limits.nesting source)
      ((items limits.nesting source).map (relineItem fun _ => 0)) :=
    walks_reline rfl rfl (TokenStream.genuine_ofText source) _ _
  rw [Session.runSource_eq_walkSource]
  simp only [Session.walkSource, Session.quoteFrom, modify_bind_apply]
  exact Shown.bind (hquoted.walk hwalks .ok) fun status past' s' e' _ h' => ⟨rfl, past', h'.closed⟩

theorem Shows.withOutput (h : unlined.Shows past s e) (output : String) :
    unlined.Shows past { s with machine := { s.machine with output } }
      { e with machine := { e.machine with output } } :=
  { h with
    machine := by
      have hmachine := h.machine
      simp only
      rw [hmachine]
    steady := by
      obtain ⟨T, hT⟩ := h.steady.typed
      exact h.steady.of_typed (hT.congr rfl rfl) h.steady.current }

namespace Twins

theorem runSource (h : Twins s t) (limits : Limits) {source other : String}
    (hrespaced : Respaced source other) : EndTwins Eq
      (Session.runSource limits source .byDistance s)
      (Session.runSource limits other .byDistance t) := by
  obtain ⟨past, past', e, hs, ht⟩ := h
  have hsame : (items limits.nesting other).map (relineItem fun _ => 0) =
      (items limits.nesting source).map (relineItem fun _ => 0) := by
    unfold items
    rw [hrespaced.sameButLines.remaining]
    exact hrespaced.sameButLines.taken _ _
  have hother := ht.runSource limits other
  rw [hsame] at hother
  exact .of_shown (hs.runSource limits source) hother

theorem step (h : Twins s t) (limits : Limits) {stream other : TokenStream}
    (hrespaced : stream.Respaced other) (run : Bool) :
    EndTwins (fun a b => b.1 = a.1 ∧ a.2.SameButLines b.2)
      (Session.step limits stream run .byDistance s)
      (Session.step limits other run .byDistance t) := by
  obtain ⟨past, past', e, hs, ht⟩ := h
  obtain ⟨hstream, hother⟩ := hrespaced.genuine
  obtain ⟨hitem, hrest⟩ := hrespaced.sameButLines.takeStatement limits.nesting
  have hitems : unlined.Items s.nextSite (stream.takeStatement limits.nesting).1
      (relineItem (fun _ => 0) (stream.takeStatement limits.nesting).1) :=
    items_reline rfl rfl hstream _ _
  have hothers : unlined.Items t.nextSite (other.takeStatement limits.nesting).1
      (relineItem (fun _ => 0) (other.takeStatement limits.nesting).1) :=
    items_reline rfl rfl hother _ _
  have hfirst := hs.handle hitems limits run
  have hsecond := ht.handle hothers limits run
  rw [hitem] at hsecond
  have htwins : EndTwins Eq _ _ := .of_shown hfirst hsecond
  rw [Session.step_apply, Session.step_apply]
  generalize Session.handle .forgetting limits (stream.takeStatement limits.nesting).1 run s = x,
    Session.handle .forgetting limits (other.takeStatement limits.nesting).1 run t = y at htwins
  cases x with
  | ok a s' =>
    cases y with
    | ok b t' =>
      obtain ⟨rfl, htwins⟩ := htwins
      exact ⟨⟨rfl, hrest⟩, htwins⟩
    | error j t' => exact htwins.elim
  | error i s' =>
    cases y with
    | ok b t' => exact htwins.elim
    | error j t' => exact htwins

end Twins

end Mirror

namespace Session
variable {source other : String}

end Session

end Lox
