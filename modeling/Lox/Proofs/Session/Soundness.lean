import Lox.Proofs.Session.Rollback
import Lox.Proofs.Token.MaximalMunch

/-!
# A program fails with errors of its own

Running sources never ends with a fault of the machinery. A parser that reads tokens ahead into a
buffer always finds a token there. Resolver and machine meet no node without a meaning and no
distance beyond the outermost frame. The scopes of a program declare no name twice, so the frame of a
call takes all parameters. Every failure is reported as an error of the program.
-/
namespace Lox
open Outcome

/-- Tokens that have been read ahead, and what the scanner delivers behind them. -/
structure Buffer where
  tokens : List Token
  scanner : TokenStream

namespace Buffer

/-- Why there is no next token: a lexical error, or a look at an empty buffer. -/
inductive Failure where
  | lexical (error : LexicalError)
  | empty

/-- Reads ahead until there is a token in the buffer. -/
def fill : EStateM Failure Buffer Unit := fun b =>
  match b.tokens with
  | _ :: _ => .ok () b
  | [] =>
    match b.scanner.head with
    | .ok token => .ok () ⟨[token], b.scanner.tail⟩
    | .error error => .error (.lexical error) ⟨[], b.scanner.tail⟩

/-- The first token in the buffer. -/
def first : EStateM Failure Buffer Token := fun b =>
  match b.tokens with
  | token :: _ => .ok token b
  | [] => .error .empty b

/-- Takes the first token out of the buffer. -/
def dropFirst : EStateM Failure Buffer Unit := fun b =>
  match b.tokens with
  | _ :: rest => .ok () ⟨rest, b.scanner⟩
  | [] => .error .empty b

/-- The next token, which stays where it is. -/
def peek : EStateM Failure Buffer Token := do
  fill
  first

/-- Takes the next token. -/
def pop : EStateM Failure Buffer Token := do
  let token ← peek
  dropFirst
  return token

/-- The stream whose first tokens have been read ahead. -/
def stream (b : Buffer) : TokenStream :=
  ⟨b.tokens.map .ok ++ b.scanner.pending, b.scanner.lastLine⟩

/-- Streams that deliver the same. -/
def Same (s t : TokenStream) : Prop :=
  ∀ count, s.delivered count = t.delivered count

/-- A step that reads from a buffer goes like one that reads from its stream. -/
inductive Follows : EStateM.Result Failure Buffer Token →
    EStateM.Result ParseError TokenStream Token → Prop where
  | ok {token : Token} {b : Buffer} {s : TokenStream} (h : Same b.stream s) :
    Follows (.ok token b) (.ok token s)
  | lexical {error : LexicalError} {b : Buffer} {s : TokenStream} (h : Same b.stream s) :
    Follows (.error (.lexical error) b) (.error (.lexical error) s)

theorem same_refl (s : TokenStream) : Same s s := fun _ => rfl

/-- At the end of the input it makes no difference whether the end token has been read ahead. -/
theorem same_endToken (lastLine : Int) :
    Same ⟨[.ok ⟨.eof, "", none, lastLine⟩], lastLine⟩ ⟨[], lastLine⟩ := by
  intro count
  cases count with
  | zero => rfl
  | succ count => rfl

/-- A look at the next token through a buffer, and taking it, never meets an empty buffer: they go
like those in the stream. -/
theorem follows (b : Buffer) :
    Follows (peek b) (Parser.peek b.stream) ∧ Follows (pop b) (Parser.pop b.stream) := by
  obtain ⟨tokens, ⟨pending, lastLine⟩⟩ := b
  cases tokens with
  | cons token tokens => exact ⟨.ok (same_refl _), .ok (same_refl _)⟩
  | nil =>
    cases pending with
    | nil => exact ⟨.ok (same_endToken lastLine), .ok (same_refl _)⟩
    | cons outcome pending =>
      cases outcome with
      | ok token => exact ⟨.ok (same_refl _), .ok (same_refl _)⟩
      | error error => exact ⟨.lexical (same_refl _), .lexical (same_refl _)⟩

end Buffer

namespace Run
variable {m : Machine} {frame : FrameId} {params : List Token} {arguments : List Value}

/-- Parameters and arguments go together, and binding them succeeds and leaves a frame with each
parameter bound to its argument and nothing else. -/
def Binds (frame : FrameId) (params : List Token) (arguments : List Value) (m : Machine) : Prop :=
  arguments.length = params.length ∧ ∃ m', bindParameters frame params arguments m = .ok () m' ∧
    m'.store.bindings frame = (params.map (·.lexeme)).zip arguments

open Classical in
/-- Binding, guarded: where it does not bind all parameters, something else happens. -/
noncomputable def Binder.guarded (alarm : Binder) : Binder := fun frame params arguments m =>
  if Binds frame params arguments m then bindParameters frame params arguments m
  else alarm frame params arguments m

/-- The guard lets exactly the successful bindings pass. -/
theorem forall_guarded_iff : (∀ alarm : Binder, Binder.guarded alarm frame params arguments m =
      bindParameters frame params arguments m) ↔ Binds frame params arguments m := by
  constructor
  · intro h
    by_contra hfails
    -- The alarm stops in one way where binding does not.
    have halarm := h fun frame params arguments m =>
      match bindParameters frame params arguments m with
      | .ok _ m => .error .unfinished m
      | .error _ m => .ok () m
    simp only [Binder.guarded, hfails, if_false] at halarm
    cases hbind : bindParameters frame params arguments m with
    | ok u m' => simp [hbind] at halarm
    | error stop m' => simp [hbind] at halarm
  · exact fun h alarm => if_pos h

/-- Parameters with different names can all be bound in a frame that binds none of them. -/
theorem bindParameters_eq_ok {f : Frame} (hframe : m.store.frames[frame]? = some f)
    (hdistinct : (params.map (·.lexeme)).Nodup)
    (hnew : ∀ param ∈ params, param.lexeme ∉ f.names) (hlength : arguments.length = params.length) :
    ∃ m', bindParameters frame params arguments m = .ok () m' ∧
      m'.store.bindings frame = f.bindings ++ (params.map (·.lexeme)).zip arguments := by
  induction params generalizing m f arguments with
  | nil => exact ⟨m, rfl, by simp [Store.bindings, hframe]⟩
  | cons param params ih =>
    cases arguments with
    | nil => cases hlength
    | cons argument arguments =>
      rw [List.map_cons, List.nodup_cons] at hdistinct
      obtain ⟨hparam, hrest⟩ := hdistinct
      have hfree : m.store.binds frame param.lexeme = false := by
        refine Bool.eq_false_iff.mpr fun hbinds => hnew param List.mem_cons_self ?_
        obtain ⟨g, hg, hname⟩ := Store.binds_iff.mp hbinds
        obtain rfl := Option.some.inj (hframe.symm.trans hg)
        exact Frame.mem_names_iff.mpr hname
      have hdefine : define frame param.lexeme argument param.line m =
          .ok () { m with store := m.store.define frame param.lexeme argument } := by
        simp [define, hfree]
      have hframe' : (m.store.define frame param.lexeme argument).frames[frame]? =
          some (f.define param.lexeme argument) := by
        rw [Store.frame_define, if_pos rfl, hframe]
        rfl
      have hnew' : ∀ other ∈ params, other.lexeme ∉ (f.define param.lexeme argument).names := by
        intro other hother hmem
        rw [Frame.names_define] at hmem
        rcases List.mem_append.mp hmem with hold | hsame
        · exact hnew other (List.mem_cons_of_mem _ hother) hold
        · exact hparam (List.mem_map.mpr ⟨other, hother, List.mem_singleton.mp hsame⟩)
      obtain ⟨m', hbind, hbindings⟩ :=
        ih (m := { m with store := m.store.define frame param.lexeme argument }) hframe' hrest hnew'
          (Nat.succ.inj hlength)
      refine ⟨m', (bind_of_ok hdefine _).trans hbind, ?_⟩
      rw [hbindings, List.map_cons, List.zip_cons_cons]
      simp [Frame.define]

end Run

/-- Scopes that declare no name twice. -/
def Scope.Distinct (scope : Scope) : Prop :=
  scope.names.Nodup

/-- In the new frame of a call of a function whose scope declares no name twice, the guard is never
called. -/
theorem Run.Binder.agrees_guarded (alarm : Binder) :
    (Binder.guarded alarm).Agrees Scope.Distinct := by
  intro m frame outer origin f arguments hframe hdistinct hlength
  refine if_pos ⟨hlength, ?_⟩
  have hparams : (f.params.map (·.lexeme)).Nodup := (List.nodup_append.mp hdistinct).1
  exact bindParameters_eq_ok hframe hparams (fun _ _ h => by cases h) hlength

/-- Errors of a program: of its text, or of its execution. -/
def Diagnostic.OfProgram (d : Diagnostic) : Prop :=
  d.OfText ∨ d.stage = .runtime

namespace Session
variable {s t : Session} {limits : Limits}

/-- What a step with some status has reported: nothing, or one error of the text or of the
execution. -/
def Reported (s : Session) : Status → Session → Prop
  | .ok, t | .done, t => t.reports = s.reports
  | .grammarError, t =>
    ∃ d : Diagnostic, d.OfText ∧ t.reports = s.reports ++ [s.reporter.report d false]
  | .runtimeError, t =>
    ∃ d : Diagnostic, d.stage = .runtime ∧ t.reports = s.reports ++ [s.reporter.report d false]

/-- How a step ends: with a status and what it has reported, or without an answer. -/
inductive Ended (s : Session) : EStateM.Result Interruption Session Status → Prop where
  | ok {status : Status} {t : Session} (h : Reported s status t) : Ended s (.ok status t)
  | unfinished {t : Session} (h : t.reports = s.reports) : Ended s (.error .unfinished t)

/-- A statement that has been performed has ended. -/
theorem Performed.ended {numbered : Stmt Site} {after : Site} {run : Bool}
    {r : EStateM.Result Interruption Session Status} (h : Performed limits numbered after s run r) :
    Ended s r := by
  cases h with
  | unresolved => exact .ok ⟨_, ResolutionError.ofText_diagnostic _, rfl⟩
  | passed =>
    rcases passed_eq numbered with ⟨-, heq⟩ | ⟨-, heq⟩ <;> exact .ok (by rw [heq]; rfl)
  | done => exact .ok rfl
  | ok => exact .ok rfl
  | runtimeError => exact .ok ⟨_, rfl, rfl⟩
  | unfinished => exact .unfinished rfl

namespace History

/-- What a session with a history does with the next item of a text ends. -/
theorem ended (hs : History s) (limits : Limits) {stream : TokenStream} (hstream : stream.Genuine)
    (run : Bool) :
    Ended s (handle .forgetting limits (stream.takeStatement limits.nesting).1 run s) := by
  obtain ⟨past, hregular⟩ := hs.regular
  rcases hregular.handled (hstream.regular_takeStatement limits.nesting) run with
    ⟨e, -, heq⟩ | ⟨numbered, after, -, hperformed⟩
  · rw [heq]
    exact .ok ⟨_, e.ofText_diagnostic, rfl⟩
  · exact hperformed.ended

/-- All that a session has ever reported are errors of its programs. -/
theorem ofProgram (hs : History s) :
    ∀ r ∈ s.reports, r.internal = false ∧ r.diagnostic.OfProgram := by
  have hconcat : ∀ {reports : List Report} {reporter : Reporter} {d : Diagnostic},
      (∀ r ∈ reports, r.internal = false ∧ r.diagnostic.OfProgram) → d.OfProgram →
        ∀ r ∈ reports ++ [reporter.report d false], r.internal = false ∧ r.diagnostic.OfProgram := by
    intro reports reporter d hreports hd r hr
    rcases List.mem_append.mp hr with hold | hnew
    · exact hreports r hold
    · rw [List.mem_singleton.mp hnew]
      exact ⟨rfl, hd⟩
  induction hs with
  | start h =>
    obtain ⟨-, -, -, hreports⟩ := start_eq_ok h
    rw [hreports]
    simp
  | quoted hs source ih => exact ih
  | step hs limits hstream run ih =>
    have hended := hs.ended limits hstream run
    rw [final_step]
    generalize handle .forgetting limits _ run _ = r at hended ⊢
    cases hended with
    | unfinished h =>
      rw [final, h]
      exact ih
    | @ok status t h =>
      rw [final]
      cases status with
      | ok | done =>
        rw [show t.reports = _ from h]
        exact ih
      | grammarError =>
        obtain ⟨d, hd, hreports⟩ := h
        rw [hreports]
        exact hconcat ih (.inl hd)
      | runtimeError =>
        obtain ⟨d, hd, hreports⟩ := h
        rw [hreports]
        exact hconcat ih (.inr hd)
  | @close s hs ih =>
    cases hmode : s.mode with
    | script => rwa [closed_of_script hmode]
    | interactive => rwa [closed_of_interactive hmode]
  | @pop s hs ih =>
    obtain ⟨mode, path, machine, nextSite, results, reporter, reports⟩ := s
    cases results <;> exact ih
  | takeOutput hs ih => exact ih
  | takeReports hs ih => exact fun r hr => by cases hr

/-- The machine behind a statement that has been performed stores no function whose scope declares a
name twice, if the one before it stores none. -/
theorem distinct_performed {numbered : Stmt Site} {after : Site} {run : Bool}
    {r : EStateM.Result Interruption Session Status} (h : Performed limits numbered after s run r)
    (hs : s.machine.store.Scoped Scope.Distinct) :
    (final r).machine.store.Scoped Scope.Distinct := by
  have hrun : ∀ {bindings : List Binding}, numbered.resolve limits.scoping = (.ok (), bindings) →
      ∀ {result : EStateM.Result Stop Machine Value}, Run.interpret limits.rounds limits.execution
        numbered (s.recorded bindings after).machine = result →
          (final result).store.Scoped Scope.Distinct := by
    rintro bindings hresolve _ rfl
    have hscopes : ∀ scope ∈ numbered.scopes, scope.Distinct :=
      fun scope hscope => Stmt.nodup_names_of_resolve hresolve hscope
    obtain ⟨-, hsettles⟩ := Run.conducts_interpret (Run.Binder.agrees_guarded Run.bindParameters)
      hscopes limits.rounds limits.execution (s.recorded bindings after).machine hs
    generalize Run.interpret limits.rounds limits.execution numbered
      (s.recorded bindings after).machine = result at hsettles ⊢
    cases result with
    | ok value m => exact hsettles.1.store
    | error stop m => exact hsettles.store
  cases h with
  | unresolved hresolve => exact hs
  | passed hresolve => exact hs
  | done hresolve heq hdone => exact hrun hresolve heq
  | ok hresolve heq hdone => exact hrun hresolve heq
  | runtimeError hresolve heq => exact hrun hresolve heq
  | unfinished hresolve heq => exact hrun hresolve heq

/-- No function that a session stores has a scope that declares a name twice. -/
theorem distinct (hs : History s) : s.machine.store.Scoped Scope.Distinct := by
  induction hs with
  | start h =>
    obtain ⟨hmachine, -⟩ := start_eq_ok h
    rw [hmachine]
    exact (Store.Scoped.empty.push [] none).define _ _ trivial
  | quoted hs source ih => exact ih
  | step hs limits hstream run ih =>
    obtain ⟨past, hregular⟩ := hs.regular
    rw [final_step]
    rcases hregular.handled (hstream.regular_takeStatement limits.nesting) run with
      ⟨e, -, heq⟩ | ⟨numbered, after, -, hperformed⟩
    · rw [heq]
      exact ih
    · exact distinct_performed hperformed ih
  | @close s hs ih =>
    cases hmode : s.mode with
    | script => rwa [closed_of_script hmode]
    | interactive => rwa [closed_of_interactive hmode]
  | @pop s hs ih =>
    obtain ⟨mode, path, machine, nextSite, results, reporter, reports⟩ := s
    cases results <;> exact ih
  | takeOutput hs ih => exact ih
  | takeReports hs ih => exact ih

/-- In a statement that is executed next, every call binds every parameter to its argument. -/
theorem binds (hs : History s) {statement : Stmt Unit} {numbered : Stmt Site}
    {bindings : List Binding}
    (hresolve : resolve limits statement s = .ok (.ok (numbered, bindings)) t)
    (alarm : Run.Binder) :
    Run.interpretWith (.guarded alarm) limits.rounds limits.execution numbered t.machine =
      Run.interpret limits.rounds limits.execution numbered t.machine := by
  obtain ⟨after, -, hresolved, rfl⟩ := of_resolve_eq_ok hresolve
  have hscopes : ∀ scope ∈ numbered.scopes, scope.Distinct :=
    fun scope hscope => Stmt.nodup_names_of_resolve hresolved hscope
  obtain ⟨hsame, -⟩ := Run.conducts_interpret (Run.Binder.agrees_guarded alarm) hscopes
    limits.rounds limits.execution (s.recorded bindings after).machine hs.distinct
  exact hsame

end History

/-- Running a program only ever fails with errors of the program, in every session with a history and
within all limits: no report blames the machinery; sources are run to their ends, unless a loop has
no end; a step is reported as its status says; every call binds every parameter to its argument;
and a parser that reads tokens ahead always finds one in its buffer. -/
theorem only_program_errors (hs : History s) (limits : Limits) :
    (∀ r ∈ s.reports, r.internal = false ∧ r.diagnostic.OfProgram) ∧
      (∀ sources : List String, Stays History (· = .unfinished)
        (sources.mapM (fun source => runSource limits source) s)) ∧
      (∀ stream : TokenStream, stream.Genuine → ∀ run : Bool,
        match step limits stream run .byDistance s with
        | .ok (status, _) t => Reported s status t
        | .error interruption _ => interruption = .unfinished) ∧
      (∀ statement numbered bindings t,
        resolve limits statement s = .ok (.ok (numbered, bindings)) t → ∀ alarm,
          Run.interpretWith (.guarded alarm) limits.rounds limits.execution numbered t.machine =
            Run.interpret limits.rounds limits.execution numbered t.machine) ∧
      ∀ buffer : Buffer, Buffer.Follows buffer.peek (Parser.peek buffer.stream) ∧
        Buffer.Follows buffer.pop (Parser.pop buffer.stream) := by
  refine ⟨hs.ofProgram, fun sources => (History.persists limits).mapM sources hs,
    fun stream hstream run => ?_, fun statement numbered bindings t => hs.binds, Buffer.follows⟩
  have hended := hs.ended limits hstream run
  rw [step_apply]
  generalize handle .forgetting limits (stream.takeStatement limits.nesting).1 run s = r at hended ⊢
  cases hended with
  | ok h => exact h
  | unfinished h => rfl

/-- A shell in which a function has been declared. -/
theorem only_program_errors_of_function :
    ∃ s, History s ∧ (∀ r ∈ s.reports, r.internal = false ∧ r.diagnostic.OfProgram) ∧
      ∀ sources : List String, Stays History (· = .unfinished)
        (sources.mapM (fun source => runSource .standard source) s) := by
  have hstart : start .interactive "<in>" (fun _ => 0) (.initial true) =
      .ok ⟨.interactive, "<in>", .initial fun _ => 0, 0, [],
        { (Reporter.initial true).withFile "<in>" "" with fatal := false }, []⟩ := rfl
  have hs := (History.start hstart).step .standard
    (TokenStream.genuine_ofText "fun f(a, b) { return a; }") true
  generalize final (step .standard (.ofText "fun f(a, b) { return a; }") true .byDistance _) = s at hs
  obtain ⟨hreports, hsources, -⟩ := only_program_errors hs .standard
  exact ⟨s, hs, hreports, hsources⟩

end Session

end Lox
