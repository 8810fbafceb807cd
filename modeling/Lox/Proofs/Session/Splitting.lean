import Lox.Proofs.Grammar.Joining
import Lox.Proofs.Session.Regular

/-!
# Splitting a text in two

An interactive session that has run a text without an error, and then another text, cannot be told
from one that has run both texts as one, the second behind the first on a line of its own. What is
read of the two texts is the same on other lines. A run of an interactive session depends on its
status only in the status that it gives, and the end of the input leaves the session as it was.
-/
namespace Lox
open Outcome

/-- A value without the lines on which the tokens of a function stand. Functions that are the same
have the same text and arity. -/
def Value.unlined (v : Value) : Value :=
  v.respell (.lines fun _ => 0)

@[simp] theorem Value.shown_unlined (v : Value) : v.unlined.shown = v.shown :=
  v.shown_respell _

@[simp] theorem Value.arity?_unlined (v : Value) : v.unlined.arity? = v.arity? :=
  v.arity?_respell _

/-- What a report says, wherever the error is: its kind and its message. -/
def Report.gist (r : Report) : Bool × Stage × String :=
  (r.internal, r.diagnostic.stage, r.diagnostic.message)

namespace Session

/-- Sessions that come of a new interactive one: it has run texts and taken single steps in them, and
what it has put out has been taken from it. -/
inductive Reachable (limits : Limits) : Session → Prop where
  | start {path : String} {clock : Nat → Float} {reporter : Reporter} {s : Session}
    (h : start .interactive path clock reporter = .ok s) : Reachable limits s
  | runSource {source : String} {status : Status} {s t : Session} (hs : Reachable limits s)
    (h : runSource limits source .byDistance s = .ok status t) : Reachable limits t
  | step {stream : TokenStream} {run : Bool} {ended : Status × TokenStream} {s t : Session}
    (hs : Reachable limits s) (hstream : stream.Genuine)
    (h : step limits stream run .byDistance s = .ok ended t) : Reachable limits t
  | pop {text : Option String} {s t : Session} (hs : Reachable limits s)
    (h : pop? s = .ok text t) : Reachable limits t
  | takeOutput {s : Session} (hs : Reachable limits s) : Reachable limits s.takeOutput.2
  | takeReports {s : Session} (hs : Reachable limits s) : Reachable limits s.takeReports.2

/-- Sessions of which the same can be observed: output, values that have been kept, globals, distances
and errors, apart from lines. -/
structure Alike (s t : Session) : Prop where
  output : t.machine.output = s.machine.output
  results : t.results.map Value.unlined = s.results.map Value.unlined
  globals : (t.machine.store.bindings Machine.globals).map (Prod.map id Value.unlined) =
    (s.machine.store.bindings Machine.globals).map (Prod.map id Value.unlined)
  distances : t.machine.distances = s.machine.distances
  reports : t.reports.map Report.gist = s.reports.map Report.gist

/-- Runs that leave sessions alike, or have been interrupted for the same reason. -/
inductive LeaveAlike {α β : Type} : EStateM.Result Interruption Session α →
    EStateM.Result Interruption Session β → Prop where
  | ok {a : α} {b : β} {s t : Session} (h : s.Alike t) : LeaveAlike (.ok a s) (.ok b t)
  | error {interruption : Interruption} {s t : Session} :
    LeaveAlike (.error interruption s) (.error interruption t)

section Reaching
variable {past : List (Stmt Site)} {limits : Limits} {s t : Session}

/-- What a regular session does with what is read of a text leaves a regular session. -/
theorem Regular.of_shown {α : Type} {a : α} {r : EStateM.Result Interruption Session α}
    (h : (Mirror.tending .forgetting).Shown r r) (hr : r = .ok a t) : ∃ past, Regular past t := by
  subst hr
  obtain ⟨-, past, hshows⟩ := h
  exact ⟨past, hshows.steady, hshows.within⟩

theorem Regular.of_runSource (h : Regular past s) {source : String} {status : Status}
    (hrun : runSource limits source .byDistance s = .ok status t) : ∃ past, Regular past t := by
  rw [runSource_eq_walkSource] at hrun
  exact Regular.of_shown (h.shows.walkSource rfl (Mirror.walks_taken source _ _)) hrun

theorem Regular.of_step (h : Regular past s) {stream : TokenStream} (hstream : stream.Genuine)
    {run : Bool} {ended : Status × TokenStream}
    (hstep : step limits stream run .byDistance s = .ok ended t) : ∃ past, Regular past t := by
  rw [step_apply] at hstep
  have hitems : (Mirror.tending .forgetting).Items s.nextSite
      (stream.takeStatement limits.nesting).1 (relineItem id (stream.takeStatement limits.nesting).1) :=
    Mirror.items_reline rfl rfl hstream limits.nesting s.nextSite
  rw [Mirror.relineItem_id] at hitems
  have hshown := h.shows.handle hitems limits run
  change (Mirror.tending .forgetting).Shown (handle .forgetting limits _ run s)
    (handle .forgetting limits _ run s) at hshown
  cases hhandle : handle .forgetting limits (stream.takeStatement limits.nesting).1 run s with
  | error interruption s' =>
    rw [hhandle] at hstep
    cases hstep
  | ok status s' =>
    rw [hhandle] at hstep
    cases hstep
    exact Regular.of_shown hshown hhandle

/-- Regularity is a matter of the machine and the numbers in use. -/
theorem Regular.congr (h : Regular past s) (hmachine : t.machine = s.machine)
    (hnext : t.nextSite = s.nextSite) : Regular past t where
  steady := by
    rw [hmachine, hnext]
    exact h.steady
  within := by
    rw [hmachine]
    exact h.within

theorem Regular.withOutput (h : Regular past s) (output : String) :
    Regular past { s with machine := { s.machine with output } } where
  steady := by
    obtain ⟨T, hT⟩ := h.steady.typed
    exact h.steady.of_typed (hT.congr rfl rfl) h.steady.current
  within := h.within

theorem pop?_eq_ok {text : Option String} (h : pop? s = .ok text t) :
    t.machine = s.machine ∧ t.nextSite = s.nextSite ∧ t.mode = s.mode := by
  obtain ⟨mode, path, machine, nextSite, results, reporter, reports⟩ := s
  cases results <;> cases h <;> exact ⟨rfl, rfl, rfl⟩

theorem start_interactive_eq_ok {path : String} {clock : Nat → Float} {reporter : Reporter}
    (h : Session.start .interactive path clock reporter = .ok s) : s.mode = .interactive := by
  cases h
  rfl

theorem sameSetting_of_step {stream : TokenStream} {run : Bool} {ended : Status × TokenStream}
    (h : step limits stream run .byDistance s = .ok ended t) : SameSetting s t := by
  rw [step_apply] at h
  cases hhandle : handle .forgetting limits (stream.takeStatement limits.nesting).1 run s with
  | error interruption s' =>
    rw [hhandle] at h
    cases h
  | ok status s' =>
    rw [hhandle] at h
    cases h
    exact .handle hhandle

theorem mode_of_runSource {source : String} {status : Status}
    (h : runSource limits source .byDistance s = .ok status t) : t.mode = s.mode := by
  rw [runSource_eq_walkSource] at h
  simp only [walkSource, quoteFrom, modify_bind_apply] at h
  rw [bind_apply] at h
  cases hwalk : walk .forgetting limits (items limits.nesting source) .ok
      { s with reporter := s.reporter.withFile s.path source } with
  | error interruption s' =>
    rw [hwalk] at h
    cases h
  | ok status s' =>
    rw [hwalk] at h
    cases h
    have hmode := (SameSetting.walk hwalk).1
    cases hs : s'.mode with
    | script => rw [closed_of_script hs]; exact hmode
    | interactive => rw [closed_of_interactive hs]; exact hmode

/-- Interactive sessions that can be reached are regular. -/
theorem Reachable.regular (h : Reachable limits s) : s.mode = .interactive ∧ ∃ past, Regular past s := by
  induction h with
  | start h => exact ⟨start_interactive_eq_ok h, [], .start h⟩
  | runSource hs h ih =>
    obtain ⟨hmode, past, hregular⟩ := ih
    exact ⟨(mode_of_runSource h).trans hmode, hregular.of_runSource h⟩
  | step hs hstream h ih =>
    obtain ⟨hmode, past, hregular⟩ := ih
    exact ⟨(sameSetting_of_step h).1.trans hmode, hregular.of_step hstream h⟩
  | pop hs h ih =>
    obtain ⟨hmode, past, hregular⟩ := ih
    obtain ⟨hmachine, hnext, hmode'⟩ := pop?_eq_ok h
    exact ⟨hmode'.trans hmode, past, hregular.congr hmachine hnext⟩
  | takeOutput hs ih =>
    obtain ⟨hmode, past, hregular⟩ := ih
    exact ⟨hmode, past, hregular.withOutput ""⟩
  | takeReports hs ih =>
    obtain ⟨hmode, past, hregular⟩ := ih
    exact ⟨hmode, past, hregular.congr rfl rfl⟩

end Reaching

section Walks
variable {past : List (Stmt Site)} {limits : Limits} {s t : Session} {items others : List Item}

/-- The session that a run leaves, or why it has been interrupted. -/
def left {α : Type} : EStateM.Result Interruption Session α → Except Interruption Session
  | .ok _ s => .ok s
  | .error interruption _ => .error interruption

/-- In an interactive session every item is executed, whatever the status. -/
theorem left_walk {upkeep : Upkeep} (hmode : s.mode = .interactive) (status other : Status) :
    left (walk upkeep limits items status s) = left (walk upkeep limits items other s) := by
  induction items generalizing s status other with
  | nil => rfl
  | cons item items ih =>
    have hrun : ∀ status : Status,
        true = (decide (s.mode = .interactive) || decide (status = .ok)) := fun status => by
      rw [hmode]
      rfl
    rw [walk_cons (hrun status), walk_cons (hrun other)]
    cases hhandle : handle upkeep limits item true s with
    | error interruption s' => rfl
    | ok ended s' =>
      have hmode' : s'.mode = .interactive := (SameSetting.handle hhandle).1.trans hmode
      cases ended with
      | ok => exact ih hmode' _ _
      | done => rfl
      | grammarError => rfl
      | runtimeError => simp [hmode]

/-- Statements without an end marker do not end a walk, and leave a session that is not done. -/
theorem Regular.walk_append (limits : Limits) (others : List Item) (h : Regular past s)
    (hmode : s.mode = .interactive) (hdone : s.machine.done = false)
    (hitems : ∀ item ∈ items, Item.Regular item ∧ Item.Unended item) (status : Status) :
    walk .forgetting limits (items ++ others) status s =
        (walk .forgetting limits items status >>= fun ended => walk .forgetting limits others ended) s ∧
      ∀ ended t, walk .forgetting limits items status s = .ok ended t → t.machine.done = false := by
  induction items generalizing past s status with
  | nil =>
    refine ⟨rfl, fun ended t hwalk => ?_⟩
    cases hwalk
    exact hdone
  | cons item items ih =>
    have hrun : true = (decide (s.mode = .interactive) || decide (status = .ok)) := by
      rw [hmode]
      rfl
    obtain ⟨hregular, hunended⟩ := hitems item List.mem_cons_self
    have hrest : ∀ other ∈ items, Item.Regular other ∧ Item.Unended other :=
      fun other hother => hitems other (List.mem_cons_of_mem _ hother)
    rw [List.cons_append, bind_apply, walk_cons hrun, walk_cons hrun]
    cases item with
    | error e =>
      have hbehind := ih (h.reported e.diagnostic) hmode hdone hrest .grammarError
      rw [bind_apply] at hbehind
      exact hbehind
    | ok statement =>
      have hnext := Next.of_item h hregular
      have hperformed := hnext.performed limits true
      simp only [handle]
      generalize hresult : perform .forgetting limits _ _ true s = result at hperformed ⊢
      cases hperformed with
      | @unresolved _ e bindings hresolve =>
        have hbehind := ih (h.reported e.diagnostic) hmode hdone hrest .grammarError
        rw [bind_apply] at hbehind
        exact hbehind
      | @done bindings value m hresolve hrun' hm =>
        have hsame := hnext.done_interpret (hunended.number_regular _) hresolve limits.rounds
          limits.execution
        rw [hrun', hdone] at hsame
        rw [show m.done = false from hsame] at hm
        cases hm
      | @ok bindings value m hresolve hrun' hm =>
        have hbehind := hnext.tended hresolve hrun'
        have hrest := ih (hbehind.keeping (statement.number s.nextSite).1 value) hmode hm hrest status
        rw [bind_apply] at hrest
        exact hrest
      | @runtimeError bindings error m hresolve hrun' =>
        have hbehind := hnext.tended hresolve hrun'
        have hsame := hnext.done_interpret (hunended.number_regular _) hresolve limits.rounds
          limits.execution
        rw [hrun', hdone] at hsame
        have hrest := ih (hbehind.reported error.diagnostic) hmode hsame hrest .runtimeError
        rw [bind_apply] at hrest
        simp only [hmode]
        exact hrest
      | unfinished => exact ⟨rfl, fun _ _ hwalk => by cases hwalk⟩

/-- An interactive session walks along the statements of a text without an error, and the end of the
input changes nothing. -/
theorem Regular.runSource_of_statements (h : Regular past s) (hmode : s.mode = .interactive)
    (hdone : s.machine.done = false) (hscoping : 0 < limits.scoping) (hexecution : 0 < limits.execution)
    {source : String}
    (hread : (TokenStream.ofText source).statements limits.nesting = items ++ [.ok .endMarker])
    (hitems : ∀ item ∈ items, Item.Regular item ∧ Item.Unended item) :
    runSource limits source .byDistance s =
      walk .forgetting limits items .ok { s with reporter := s.reporter.withFile s.path source } := by
  have hquoted : Regular past { s with reporter := s.reporter.withFile s.path source } :=
    h.congr rfl rfl
  obtain ⟨happend, hleft⟩ := hquoted.walk_append limits [.ok .endMarker] hmode hdone hitems .ok
  rw [runSource_apply hscoping hexecution, hread, bind_apply, happend, bind_apply]
  cases hwalk : walk .forgetting limits items .ok
      { s with reporter := s.reporter.withFile s.path source } with
  | error interruption t => rfl
  | ok status t =>
    have hmode' : t.mode = .interactive := (SameSetting.walk hwalk).1.trans hmode
    have hdone' : t.machine.done = false := hleft status t hwalk
    have hrun : true = (decide (t.mode = .interactive) || decide (status = .ok)) := by
      rw [hmode']
      rfl
    have hclosed : closed { t with machine := { t.machine with done := true } } = t := by
      refine (closed_of_interactive (s := { t with machine := { t.machine with done := true } })
        hmode').trans ?_
      simp only [← hdone']
    simp only [walk_cons hrun, handle_endMarker_true hscoping hexecution]
    show EStateM.Result.ok status (closed _) = _
    rw [hclosed]

end Walks

end Session

/-- The session without the lines of all that it has stored. -/
def Session.unlined (s : Session) : Session :=
  { s with
    machine := { s.machine with store := s.machine.store.respell (.lines fun _ => 0) }
    results := s.results.map Value.unlined }

namespace Mirror
variable {past : List (Stmt Site)} {s t : Session} {limits : Limits} {items others : List Item}

/-- The session that is given everything on one line. -/
def unlined : Mirror where
  respelling := .lines fun _ => 0
  forms := .regular
  upkeep := .forgetting
  reporters _ _ := True
  reports a b := a.gist = b.gist
  proper := Respelling.proper_lines _ _
  report := by
    rintro r r' d d' - hd
    rw [hd.eq_of_lines]
    rfl

theorem shows_unlined (h : s.Regular past) : unlined.Shows past s s.unlined where
  mode := rfl
  path := rfl
  nextSite := rfl
  results := rfl
  reports := List.forall₂_same.mpr fun _ _ => rfl
  reporter := trivial
  machine := rfl
  steady := h.steady
  spelled := fun root _ => root.spelled_lines _
  within := h.within
  agree := fun _ => rfl
  known := h.steady.known
  same := fun _ => rfl

/-- Items of a text, and the same on one line. -/
theorem walks_unlined (limits : Limits) (h : ∀ item ∈ items, Item.Regular item) (next : Site) :
    unlined.Walks limits next items (items.map (relineItem fun _ => 0)) := by
  induction items generalizing next with
  | nil => exact .nil next
  | cons item items ih =>
    refine .cons ?_ (ih (fun other hother => h other (List.mem_cons_of_mem _ hother)) _)
    cases item with
    | error e => exact .error (e.respelled_reline _)
    | ok statement =>
      obtain ⟨hread, hwithin⟩ := h _ List.mem_cons_self
      exact .ok hread ⟨hwithin.number_regular next, Stmt.spelled_lines _ _⟩
        (statement.number_respell_lines _ none none next)

/-- Sessions with a common mirror. -/
def Twins (s t : Session) : Prop :=
  ∃ past past' e, unlined.Shows past s e ∧ unlined.Shows past' t e

/-- Runs that leave sessions with a common mirror, or have been interrupted for the same reason. -/
def LeaveTwins {α β : Type} : EStateM.Result Interruption Session α →
    EStateM.Result Interruption Session β → Prop
  | .ok _ s, .ok _ t => Twins s t
  | .error i _, .error j _ => i = j
  | _, _ => False

/-- Runs whose mirrors leave the same. -/
theorem LeaveTwins.of_shown {α β : Type} {x x' : EStateM.Result Interruption Session α}
    {y y' : EStateM.Result Interruption Session β} (hx : unlined.Shown x x') (hy : unlined.Shown y y')
    (h : Session.left x' = Session.left y') : LeaveTwins x y := by
  cases x with
  | ok a s =>
    cases x' with
    | error i e => exact hx.elim
    | ok a' e =>
      obtain ⟨-, past, hs⟩ := hx
      cases y' with
      | error j e' => cases h
      | ok b' e' =>
        cases h
        cases y with
        | error j t => exact hy.elim
        | ok b t =>
          obtain ⟨-, past', ht⟩ := hy
          exact ⟨past, past', e, hs, ht⟩
  | error i s =>
    cases x' with
    | ok a' e => exact hx.elim
    | error i' e =>
      cases y' with
      | ok b' e' => cases h
      | error j' e' =>
        cases h
        cases y with
        | ok b t => exact hy.elim
        | error j t => exact Eq.trans hx (Eq.symm hy)

/-- One run behind another. -/
theorem LeaveTwins.bind {α β γ δ : Type} {x : SessionM α} {y : SessionM β} {f : α → SessionM γ}
    {g : β → SessionM δ} (h : LeaveTwins (x s) (y t))
    (hbehind : ∀ a b s' t', x s = .ok a s' → y t = .ok b t' → Twins s' t' →
      LeaveTwins (f a s') (g b t')) : LeaveTwins ((x >>= f) s) ((y >>= g) t) := by
  rw [bind_apply, bind_apply]
  cases hx : x s with
  | ok a s' =>
    cases hy : y t with
    | ok b t' =>
      rw [hx, hy] at h
      exact hbehind a b s' t' hx hy h
    | error j t' =>
      rw [hx, hy] at h
      exact h.elim
  | error i s' =>
    cases hy : y t with
    | ok b t' =>
      rw [hx, hy] at h
      exact h.elim
    | error j t' =>
      rw [hx, hy] at h
      exact h

namespace Twins

/-- The texts that are quoted do not matter. -/
theorem quoted (h : Twins s t) (r r' : Reporter) :
    Twins { s with reporter := r } { t with reporter := r' } := by
  obtain ⟨past, past', e, hs, ht⟩ := h
  have hreporter : ∀ r : Reporter, unlined.reporters r e.reporter := fun _ => trivial
  exact ⟨past, past', e, hs.quoted (hreporter r), ht.quoted (hreporter r')⟩

theorem closed (h : Twins s t) : Twins s.closed t.closed := by
  obtain ⟨past, past', e, hs, ht⟩ := h
  exact ⟨past, past', e.closed, hs.closed, ht.closed⟩

/-- Walks of interactive sessions along items that are the same on one line. -/
theorem walk (h : Twins s t) (hmode : s.mode = .interactive) (hitems : ∀ item ∈ items, Item.Regular item)
    (hothers : ∀ item ∈ others, Item.Regular item)
    (hsame : others.map (relineItem fun _ => 0) = items.map (relineItem fun _ => 0))
    (status other : Status) :
    LeaveTwins (Session.walk .forgetting limits items status s)
      (Session.walk .forgetting limits others other t) := by
  obtain ⟨past, past', e, hs, ht⟩ := h
  have hfirst := hs.walk (walks_unlined limits hitems _) status
  have hsecond := ht.walk (walks_unlined limits hothers _) other
  rw [hsame] at hsecond
  exact .of_shown hfirst hsecond (Session.left_walk (hs.mode.trans hmode) status other)

theorem alike (h : Twins s t) : s.Alike t := by
  obtain ⟨past, past', e, hs, ht⟩ := h
  have hglobals : ∀ {past : List (Stmt Site)} {s : Session}, unlined.Shows past s e →
      (s.machine.store.bindings Machine.globals).map (Prod.map id Value.unlined) =
        e.machine.store.bindings Machine.globals := by
    intro past s h
    rw [h.machine]
    simp only [Store.bindings, Store.respell, Array.getElem?_map]
    cases s.machine.store.frames[Machine.globals]? <;> rfl
  have hreports : ∀ {past : List (Stmt Site)} {s : Session}, unlined.Shows past s e →
      s.reports.map Report.gist = e.reports.map Report.gist := by
    intro past s h
    rw [← List.forall₂_eq_eq_eq, List.forall₂_map_left_iff, List.forall₂_map_right_iff]
    exact h.reports
  exact {
    output := ht.output_eq.symm.trans hs.output_eq
    results := ht.results.symm.trans hs.results
    globals := (hglobals ht).trans (hglobals hs).symm
    distances := (ht.same rfl).symm.trans (hs.same rfl)
    reports := (hreports ht).trans (hreports hs).symm }

end Twins

theorem LeaveTwins.leaveAlike {α β : Type} {x : EStateM.Result Interruption Session α}
    {y : EStateM.Result Interruption Session β} (h : LeaveTwins x y) : Session.LeaveAlike x y := by
  cases x with
  | ok a s =>
    cases y with
    | ok b t => exact .ok (Twins.alike h)
    | error j t => exact h.elim
  | error i s =>
    cases y with
    | ok b t => exact h.elim
    | error j t =>
      obtain rfl : i = j := h
      exact .error

/-- On other lines twice. -/
theorem relineItem_relineItem (line line' : Int → Int) :
    ∀ item : Item, relineItem line' (relineItem line item) = relineItem (line' ∘ line) item
  | .ok statement => congrArg Except.ok (statement.respell_lines_lines line line' none)
  | .error (.lexical _) => rfl
  | .error (.syntactic _) => rfl

end Mirror

namespace Session
variable {limits : Limits} {s : Session} {source other : String}

/-- An interactive session is given a text without a lexical or syntax error, in which no body of a
conditional or a loop is missing, and then another text, which does not start with an `else`. This
cannot be told from giving it both texts as one, on lines of their own. -/
theorem splitting_unnoticed (hreach : Reachable limits s) (hdone : s.machine.done = false)
    (hnesting : 0 < limits.nesting) (hscoping : 0 < limits.scoping)
    (hexecution : 0 < limits.execution)
    (hread : ∀ item ∈ (TokenStream.ofText source).statements limits.nesting,
      ∃ statement : Stmt Unit, item = .ok statement ∧ statement.lacksBody = false)
    (hnext : Grammar.Next (fun kind => kind ≠ .kwElse) (.ofText other)) :
    LeaveAlike
      ((do let _ ← runSource limits source
           runSource limits other) s)
      (runSource limits (source ++ "\n" ++ other) .byDistance s) := by
  obtain ⟨hmode, past, hregular⟩ := hreach.regular
  obtain ⟨depth, hdepth⟩ := Nat.exists_eq_add_of_lt hnesting
  rw [Nat.zero_add] at hdepth
  have hwhole : ∀ text : String,
      ∀ item ∈ (TokenStream.ofText text).statements limits.nesting, Item.Regular item := by
    intro text
    rw [hdepth]
    exact (whole_statementsUpTo (TokenStream.genuine_ofText text) (Nat.lt_succ_self _)).regular
  have hfirst := hwhole source
  have hboth := hwhole (source ++ "\n" ++ other)
  rw [hdepth] at hread
  obtain ⟨statements, hstatements, hall⟩ :=
    Grammar.exists_statements (TokenStream.genuine_ofText source) hread
  have hjoined := Grammar.statements_ofText_append hstatements (fun _ hmem => (hall _ hmem).1)
    fun _ => hnext
  rw [← hdepth] at hstatements hjoined
  rw [hstatements] at hfirst
  rw [hjoined] at hboth
  have hitems : ∀ item ∈ (statements.map .ok : List Item), Item.Regular item ∧ Item.Unended item := by
    intro item hitem
    refine ⟨hfirst item (List.mem_append_left _ hitem), ?_⟩
    obtain ⟨statement, hmem, rfl⟩ := List.mem_map.mp hitem
    exact (hall statement hmem).2
  -- Both ways go along the statements of the first text, and then along those of the second.
  have hapart : ((do let _ ← runSource limits source
                     runSource limits other : SessionM Status) s) =
      (walk .forgetting limits (statements.map .ok) .ok >>= fun _ => runSource limits other)
        { s with reporter := s.reporter.withFile s.path source } := by
    rw [bind_apply, bind_apply,
      hregular.runSource_of_statements hmode hdone hscoping hexecution hstatements hitems]
  have htogether : runSource limits (source ++ "\n" ++ other) .byDistance s =
      (walk .forgetting limits (statements.map .ok) .ok >>= fun ended => do
          let status ← walk .forgetting limits (((TokenStream.ofText other).statements
            limits.nesting).map (relineItem (· + (TokenStream.ofText source).lastLine))) ended
          modify closed
          return status)
        { s with reporter := s.reporter.withFile s.path (source ++ "\n" ++ other) } := by
    have hquoted : Regular past
        { s with reporter := s.reporter.withFile s.path (source ++ "\n" ++ other) } :=
      hregular.congr rfl rfl
    obtain ⟨happend, -⟩ := hquoted.walk_append limits _ hmode hdone hitems .ok
    rw [runSource_apply hscoping hexecution, hjoined, bind_apply, happend, bind_apply, bind_apply]
    cases walk .forgetting limits (statements.map .ok) .ok
        { s with reporter := s.reporter.withFile s.path (source ++ "\n" ++ other) } <;> rfl
  have htwins : Mirror.Twins s s :=
    ⟨past, past, s.unlined, Mirror.shows_unlined hregular, Mirror.shows_unlined hregular⟩
  have hquoted := htwins.quoted (s.reporter.withFile s.path source)
    (s.reporter.withFile s.path (source ++ "\n" ++ other))
  have hfront : ∀ item ∈ (statements.map .ok : List Item), Item.Regular item :=
    fun item hitem => (hitems item hitem).1
  rw [hapart, htogether]
  refine Mirror.LeaveTwins.leaveAlike (Mirror.LeaveTwins.bind
    (hquoted.walk hmode hfront hfront rfl .ok .ok) fun _ ended s' t' hs' _ h => ?_)
  have hmode' : s'.mode = .interactive := (SameSetting.walk hs').1.trans hmode
  have hlines : (((TokenStream.ofText other).statements limits.nesting).map
      (relineItem (· + (TokenStream.ofText source).lastLine))).map (relineItem fun _ => 0) =
        ((TokenStream.ofText other).statements limits.nesting).map (relineItem fun _ => 0) := by
    rw [List.map_map]
    exact List.map_congr_left fun item _ => Mirror.relineItem_relineItem _ _ item
  rw [runSource_apply hscoping hexecution]
  have hquoted' := h.quoted (s'.reporter.withFile s'.path other) t'.reporter
  refine Mirror.LeaveTwins.bind (hquoted'.walk hmode' (hwhole other)
    (fun item hitem => hboth item (List.mem_append_right _ hitem)) hlines .ok ended)
      fun _ _ _ _ _ _ h => h.closed

/-- A function is declared, and there is a runtime error; then the function is called, behind which
there is a syntax error. -/
theorem splitting_unnoticed_of_errors :
    ∃ s, start .interactive "<in>" (fun _ => 0) (.initial true) = .ok s ∧
      Reachable .standard s ∧ s.machine.done = false ∧
      (∀ item ∈ (TokenStream.ofText "fun f(a) { return a; } f();").statements
          Limits.standard.nesting,
        ∃ statement : Stmt Unit, item = .ok statement ∧ statement.lacksBody = false) ∧
      Grammar.Next (fun kind => kind ≠ .kwElse) (.ofText "f(1); print ;") ∧
      LeaveAlike
        ((do let _ ← runSource .standard "fun f(a) { return a; } f();"
             runSource .standard "f(1); print ;") s)
        (runSource .standard ("fun f(a) { return a; } f();" ++ "\n" ++ "f(1); print ;") .byDistance
          s) := by
  have hstart : start .interactive "<in>" (fun _ => 0) (.initial true) =
      .ok ⟨.interactive, "<in>", .initial fun _ => 0, 0, [],
        { (Reporter.initial true).withFile "<in>" "" with fatal := false }, []⟩ := rfl
  have hall : ((TokenStream.ofText "fun f(a) { return a; } f();").statements
      Limits.standard.nesting).all (fun item => item.toOption.any fun statement =>
        !statement.lacksBody) = true := by decide +kernel
  have hread : ∀ item ∈ (TokenStream.ofText "fun f(a) { return a; } f();").statements
      Limits.standard.nesting,
      ∃ statement : Stmt Unit, item = .ok statement ∧ statement.lacksBody = false := by
    intro item hitem
    have hbody := List.all_eq_true.mp hall item hitem
    cases item with
    | error e => cases hbody
    | ok statement => exact ⟨statement, rfl, by simpa [Except.toOption] using hbody⟩
  have hkind : (TokenStream.ofText "f(1); print ;").head.toOption.map Token.kind =
      some .identifier := by decide +kernel
  have hnext : Grammar.Next (fun kind => kind ≠ .kwElse) (.ofText "f(1); print ;") := by
    obtain ⟨t, hhead, hkind⟩ := Option.map_eq_some_iff.mp hkind
    cases hfirst : (TokenStream.ofText "f(1); print ;").head with
    | error e =>
      rw [hfirst] at hhead
      cases hhead
    | ok token =>
      rw [hfirst] at hhead
      cases hhead
      exact ⟨t, hfirst, by simp [hkind]⟩
  exact ⟨_, hstart, .start hstart, rfl, hread, hnext,
    splitting_unnoticed (.start hstart) rfl (by decide) (by decide) (by decide) hread hnext⟩

end Session

end Lox
