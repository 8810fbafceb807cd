import Lox.Proofs.Session.Splitting

/-!
# The histories of sessions

A session runs sources and takes single steps in streams, one after the other, in either mode, and
what it has put out is taken from it. It may go on after an error and after an interruption. What
such steps keep holds of every session with a history.
-/
namespace Lox
open Outcome

namespace Session
variable {P : Session → Prop} {A : Interruption → Prop} {R : TokenStream → Prop} {limits : Limits}
  {s t : Session}

/-- A run leaves a session with `P`, and if it is interrupted then for a reason with `A`. -/
def Stays {α : Type} (P : Session → Prop) (A : Interruption → Prop) :
    EStateM.Result Interruption Session α → Prop
  | .ok _ s => P s
  | .error interruption s => A interruption ∧ P s

/-- A property of sessions that quoting another source, a step in a stream with `R`, and the end of a
source keep. -/
structure Persists (P : Session → Prop) (A : Interruption → Prop) (R : TokenStream → Prop)
    (limits : Limits) : Prop where
  quoted : ∀ {s}, P s → ∀ source, P { s with reporter := s.reporter.withFile s.path source }
  step : ∀ {s stream}, P s → R stream → ∀ run, Stays P A (step limits stream run .byDistance s)
  close : ∀ {s}, P s → P s.closed
  text : ∀ source, R (.ofText source)
  rest : ∀ {stream}, R stream → R (stream.takeStatement limits.nesting).2

/-- A step goes on behind the statement that it has taken. -/
theorem snd_of_step {stream : TokenStream} {run : Bool} {ended : Status × TokenStream}
    (h : step limits stream run .byDistance s = .ok ended t) :
    ended.2 = (stream.takeStatement limits.nesting).2 := by
  rw [step_apply] at h
  cases hhandle : handle .forgetting limits (stream.takeStatement limits.nesting).1 run s with
  | error interruption t' =>
    rw [hhandle] at h
    cases h
  | ok status t' =>
    rw [hhandle] at h
    cases h
    rfl

namespace Persists

theorem steps (h : Persists P A R limits) (fuel : Nat) {stream : TokenStream} (hstream : R stream)
    (status : Status) (hs : P s) :
    Stays P A (Session.steps .byDistance limits fuel stream status s) := by
  induction fuel generalizing s stream status with
  | zero => exact hs
  | succ fuel ih =>
    simp only [Session.steps, bind_apply, get_apply]
    generalize (decide (s.mode = .interactive) || decide (status = .ok)) = run
    have hnext := h.step hs hstream run
    cases hstep : Session.step limits stream run .byDistance s with
    | error interruption t =>
      rw [hstep] at hnext
      exact hnext
    | ok ended t =>
      rw [hstep] at hnext
      have hrest : R ended.2 := snd_of_step hstep ▸ h.rest hstream
      obtain ⟨result, rest⟩ := ended
      cases result with
      | done => exact hnext
      | ok => exact ih hrest status hnext
      | grammarError => exact ih hrest .grammarError hnext
      | runtimeError =>
        simp only
        split
        · exact hnext
        · exact ih hrest .runtimeError hnext

/-- A source that is run, to its end or until it is interrupted. -/
theorem runSource (h : Persists P A R limits) (source : String) (hs : P s) :
    Stays P A (Session.runSource limits source .byDistance s) := by
  have hsteps := h.steps ((TokenStream.ofText source).remaining + 1) (h.text source) .ok
    (h.quoted hs source)
  rw [steps_eq_walk] at hsteps
  rw [runSource_eq_walkSource]
  simp only [walkSource, quoteFrom, modify_bind_apply]
  rw [bind_apply, items]
  generalize walk .forgetting limits _ .ok _ = r at hsteps ⊢
  cases r with
  | error interruption t => exact hsteps
  | ok status t => exact h.close hsteps

/-- Sources that are run one after the other. -/
theorem mapM (h : Persists P A R limits) (sources : List String) (hs : P s) :
    Stays P A (sources.mapM (fun source => Session.runSource limits source) s) := by
  induction sources generalizing s with
  | nil =>
    rw [List.mapM_nil]
    exact hs
  | cons source sources ih =>
    have hfirst := h.runSource source hs
    rw [List.mapM_cons, bind_apply]
    generalize Session.runSource limits source .byDistance s = r at hfirst ⊢
    cases r with
    | error interruption t => exact hfirst
    | ok status t =>
      have hrest := ih hfirst
      simp only [bind_apply]
      generalize sources.mapM (fun source => Session.runSource limits source) t = r at hrest ⊢
      cases r with
      | error interruption u | ok statuses u => exact hrest

end Persists

/-- Sessions that come of a new one, in either mode. Steps are taken in streams of texts, each within
limits of its own, and however a step ends the session may go on. -/
inductive History : Session → Prop where
  | start {mode : Mode} {path : String} {clock : Nat → Float} {reporter : Reporter} {s : Session}
    (h : start mode path clock reporter = .ok s) : History s
  | quoted {s : Session} (hs : History s) (source : String) :
    History { s with reporter := s.reporter.withFile s.path source }
  | step {s : Session} (hs : History s) (limits : Limits) {stream : TokenStream}
    (hstream : stream.Genuine) (run : Bool) :
    History (final (step limits stream run .byDistance s))
  | close {s : Session} (hs : History s) : History s.closed
  | pop {s : Session} (hs : History s) : History (final (pop? s))
  | takeOutput {s : Session} (hs : History s) : History s.takeOutput.2
  | takeReports {s : Session} (hs : History s) : History s.takeReports.2

section Regularity
variable {past : List (Stmt Site)} {numbered : Stmt Site} {after : Site}

/-- The machine that a statement of a text leaves, whatever becomes of it. -/
theorem Next.regular_performed (h : Next past s numbered after) {run : Bool}
    {r : EStateM.Result Interruption Session Status} (hr : Performed limits numbered after s run r) :
    ∃ past, Regular past (final r) := by
  cases hr with
  | unresolved hresolve => exact ⟨past, h.regular.reported _⟩
  | passed hresolve =>
    exact ⟨_, (h.regular.recorded (h.taken hresolve)).tended
      (List.mem_append_right _ List.mem_cons_self) hresolve⟩
  | done hresolve hrun hdone => exact ⟨_, h.tended hresolve hrun⟩
  | ok hresolve hrun hdone => exact ⟨_, (h.tended hresolve hrun).keeping _ _⟩
  | runtimeError hresolve hrun => exact ⟨_, (h.tended hresolve hrun).reported _⟩
  | unfinished hresolve hrun => exact ⟨_, h.tended hresolve hrun⟩

/-- What can become of an item of a text: it is the error in the place of a statement, or a
statement that is performed. -/
theorem Regular.handled (h : Regular past s) {item : Item} (hitem : Item.Regular item) (run : Bool) :
    (∃ e, item = .error e ∧
        handle .forgetting limits item run s = .ok .grammarError (s.reported e.diagnostic)) ∨
      ∃ numbered after, Next past s numbered after ∧
        Performed limits numbered after s run (Session.handle .forgetting limits item run s) := by
  cases item with
  | error e => exact .inl ⟨e, rfl, rfl⟩
  | ok statement =>
    have hnext := Next.of_item h hitem
    exact .inr ⟨_, _, hnext, hnext.performed limits run⟩

theorem final_step {stream : TokenStream} {run : Bool} :
    final (step limits stream run .byDistance s) =
      final (Session.handle .forgetting limits (stream.takeStatement limits.nesting).1 run s) := by
  rw [step_apply]
  cases Session.handle .forgetting limits (stream.takeStatement limits.nesting).1 run s <;> rfl

theorem Regular.of_closed (h : Regular past s) : Regular past s.closed := by
  cases hmode : s.mode with
  | script => rwa [closed_of_script hmode]
  | interactive =>
    rw [closed_of_interactive hmode]
    obtain ⟨T, hT⟩ := h.steady.typed
    exact ⟨h.steady.of_typed (hT.congr rfl rfl) h.steady.current, h.within⟩

/-- Sessions with a history are regular. -/
theorem History.regular (h : History s) : ∃ past, Regular past s := by
  induction h with
  | start h => exact ⟨[], .start h⟩
  | quoted hs source ih => exact ih.imp fun _ hregular => hregular.congr rfl rfl
  | step hs limits hstream run ih =>
    obtain ⟨past, hregular⟩ := ih
    rw [final_step]
    rcases hregular.handled (hstream.regular_takeStatement limits.nesting) run with
      ⟨e, -, heq⟩ | ⟨numbered, after, hnext, hperformed⟩
    · rw [heq]
      exact ⟨past, hregular.reported _⟩
    · exact hnext.regular_performed hperformed
  | close hs ih => exact ih.imp fun _ hregular => hregular.of_closed
  | @pop s hs ih =>
    refine ih.imp fun _ hregular => ?_
    cases hpop : pop? s with
    | ok text t =>
      obtain ⟨hmachine, hnext, -⟩ := pop?_eq_ok hpop
      exact hregular.congr hmachine hnext
    | error interruption t =>
      obtain ⟨mode, path, machine, nextSite, results, reporter, reports⟩ := s
      cases results <;> cases hpop
  | takeOutput hs ih => exact ih.imp fun _ hregular => hregular.withOutput ""
  | takeReports hs ih => exact ih.imp fun _ hregular => hregular.congr rfl rfl

/-- Running sources continues a history, and nothing but a loop without end can interrupt it. -/
theorem History.persists (limits : Limits) :
    Persists History (· = .unfinished) TokenStream.Genuine limits where
  quoted := .quoted
  step := by
    intro s stream hs hstream run
    have hnext := hs.step limits hstream run
    obtain ⟨past, hregular⟩ := hs.regular
    rw [step_apply] at hnext ⊢
    rcases hregular.handled (hstream.regular_takeStatement limits.nesting) run with
      ⟨e, -, heq⟩ | ⟨numbered, after, -, hperformed⟩
    · rw [heq] at hnext ⊢
      exact hnext
    · generalize Session.handle .forgetting limits _ run s = r at hperformed hnext ⊢
      cases hperformed with
      | unfinished => exact ⟨rfl, hnext⟩
      | _ => exact hnext
  close := .close
  text := TokenStream.genuine_ofText
  rest h := h.takeStatement limits.nesting

end Regularity

end Session

end Lox
