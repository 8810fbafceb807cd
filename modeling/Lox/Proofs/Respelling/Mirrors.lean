import Lox.Proofs.Respelling.Execution
import Lox.Proofs.Respelling.Resolving
import Lox.Proofs.Session.Walking

/-!
# Sessions in another spelling

Two sessions are given the same items in different spellings, and they may treat their tables
differently behind a statement. The second one mirrors the first: it has the same statuses, output
and number of frames, the same values in the other spelling, and reports that correspond. Distances
may differ only for references that are not evaluated any more.
-/
namespace Lox
open Outcome

theorem Distances.find?_forget_of_mem {d : Distances} {bindings : List Binding} {b : Binding}
    (hb : b ∈ bindings) : (d.forget bindings).find? b.site = none := by
  simp only [find?, forget, List.lookup_eq_none_iff, List.mem_filter, Prod.forall]
  rintro site distance ⟨-, hkept⟩
  by_contra hsite
  have heq : b.site = site := by simpa using hsite
  have hany : bindings.any (·.site == site) = true := List.any_eq_true.mpr ⟨b, hb, by simp [heq]⟩
  simp [hany] at hkept

/-- Once its distance has been forgotten, a reference is bound no more. -/
theorem Machine.Steady.not_bound_of_forgotten {past : List (Stmt Site)} {next : Site} {m : Machine}
    (h : m.Steady past next) {root : Stmt Site} (hroot : root ∈ past) {depth : Nat}
    {bindings : List Binding} (hresolve : root.resolve depth = (.ok (), bindings)) {b : Binding}
    (hb : b ∈ transient bindings) {v : Visit} (hsite : b.site = v.site) :
    ¬ (Setting.behind past (m.distances.forget (transient bindings))).Bound v := by
  rintro ⟨⟨other, hother, hvisit⟩, hfind⟩
  have hmem := (List.mem_filter.mp hb).1
  rw [Stmt.resolve_eq_ok hresolve] at hmem
  obtain ⟨u, hu, hub⟩ := List.mem_filterMap.mp hmem
  have huv : u = v := by
    refine List.inj_on_of_nodup_map h.fresh.nodup (List.mem_flatMap.mpr ⟨root, hroot, hu⟩)
      (List.mem_flatMap.mpr ⟨other, hother, hvisit⟩) ?_
    rw [← hsite, Visit.site_of_binding? hub]
  subst huv
  obtain ⟨distance, hscope, -⟩ := Option.map_eq_some_iff.mp hub
  have hnone : (m.distances.forget (transient bindings)).find? u.site = none := by
    rw [← hsite]
    exact Distances.find?_forget_of_mem hb
  have hbound : (m.distances.forget (transient bindings)).find? u.site = _ := hfind
  rw [hnone, hscope] at hbound
  cases hbound

/-- Diagnostics that correspond: of the same stage, on the other line, and with the name of a
variable as some scope spells it. -/
inductive Diagnostic.Respelled (ρ : Respelling Site) : Diagnostic → Diagnostic → Prop where
  | same (stage : Stage) (message : String) (line : Option Int) :
    Respelled ρ ⟨stage, message, line⟩ ⟨stage, message, line.map ρ.line⟩
  | runtime (cause : RuntimeError.Cause) (line : Option Int) (scope : Option Site) :
    Respelled ρ (RuntimeError.diagnostic ⟨cause, line⟩)
      (RuntimeError.diagnostic ⟨cause.respell (ρ.declared scope), line.map ρ.line⟩)

/-- How a session is mirrored: in which spelling, with which names, with what done to the table
behind a statement, and what is to be said of the reports. -/
structure Mirror where
  respelling : Respelling Site
  forms : Forms Site
  upkeep : Upkeep
  reporters : Reporter → Reporter → Prop
  reports : Report → Report → Prop
  proper : respelling.Proper forms
  report : ∀ {r r' : Reporter} {d d' : Diagnostic}, reporters r r' → d.Respelled respelling d' →
    reports (r.report d false) (r'.report d' false)

/-- A statement that has been read from some text. -/
def Stmt.Read (statement : Stmt Unit) : Prop :=
  ∃ stream depth, (TokenStream.takeStatement depth stream).1 = .ok statement

/-- In another spelling the same is kept. -/
theorem Session.kept_respell (ρ : Respelling Site) (mode : Mode) (numbered : Stmt Site)
    (value : Value) : kept mode (numbered.respell ρ none) (value.respell ρ) =
      (kept mode numbered value).map (Value.respell ρ) := by
  cases mode with
  | script => rfl
  | interactive =>
    cases numbered with
    | «variable» name initializer => cases initializer <;> rfl
    | conditional condition yes no => cases no <;> rfl
    | «return» keyword value => cases value <;> rfl
    | _ => rfl

theorem Session.passed_respell (ρ : Respelling Site) (numbered : Stmt Site) :
    passed (numbered.respell ρ none) = passed numbered := by
  cases numbered with
  | «variable» name initializer => cases initializer <;> rfl
  | conditional condition yes no => cases no <;> rfl
  | «return» keyword value => cases value <;> rfl
  | _ => rfl

namespace Mirror
variable {M : Mirror} {past : List (Stmt Site)} {s t : Session}

/-- Session `t` mirrors session `s`, which has been driven through the statements `past`. -/
structure Shows (M : Mirror) (past : List (Stmt Site)) (s t : Session) : Prop where
  mode : t.mode = s.mode
  path : t.path = s.path
  nextSite : t.nextSite = s.nextSite
  results : t.results = s.results.map (Value.respell M.respelling)
  reports : List.Forall₂ M.reports s.reports t.reports
  reporter : M.reporters s.reporter t.reporter
  machine : t.machine = { s.machine with
    store := s.machine.store.respell M.respelling
    distances := t.machine.distances }
  steady : s.machine.Steady past s.nextSite
  spelled : ∀ root ∈ past, root.Spelled M.respelling
  within : s.machine.store.Within M.forms
  agree : ∀ {v : Visit}, (Setting.behind past s.machine.distances).Bound v →
    t.machine.distances.find? v.site = s.machine.distances.find? v.site
  known : ∀ site, t.machine.distances.find? site ≠ none → site < s.nextSite
  same : M.upkeep = .forgetting → t.machine.distances = s.machine.distances

/-- Two runs of sessions have ended alike, and the sessions they leave mirror each other; or both
have been interrupted for the same reason. -/
def Shown {α : Type} (M : Mirror) :
    EStateM.Result Interruption Session α → EStateM.Result Interruption Session α → Prop
  | .ok a s, .ok b t => a = b ∧ ∃ past, M.Shows past s t
  | .error i _, .error j _ => i = j
  | _, _ => False

/-- A statement that can be handled in the other spelling: it has been read from a text, has certain
names only, and its references are spelled like their declarations. -/
structure Admits (M : Mirror) (numbered : Stmt Site) : Prop where
  within : numbered.Within M.forms True none
  spelled : numbered.Spelled M.respelling

/-- Items that correspond when `next` is the next number that is not in use. -/
inductive Items (M : Mirror) (next : Site) : Item → Item → Prop where
  | error {error other : ParseError} (h : error.diagnostic.Respelled M.respelling other.diagnostic) :
    Items M next (.error error) (.error other)
  | ok {statement other : Stmt Unit} (hread : statement.Read)
    (hadmits : M.Admits (statement.number next).1)
    (hother : other.number next =
      ((statement.number next).1.respell M.respelling none, (statement.number next).2)) :
    Items M next (.ok statement) (.ok other)

/-- The translation between the machines of the two sessions. -/
def translation (M : Mirror) (distances : Distances) : Translation :=
  { M.respelling with distances := fun _ => distances, done := id }

/-- One run behind another. -/
theorem Shown.bind {α β : Type} {x y : SessionM α} {f g : α → SessionM β}
    (hx : M.Shown (x s) (y t))
    (hf : ∀ a past s' t', x s = .ok a s' → M.Shows past s' t' → M.Shown (f a s') (g a t')) :
    M.Shown ((x >>= f) s) ((y >>= g) t) := by
  rw [bind_apply, bind_apply]
  cases hfirst : x s with
  | ok a s' =>
    rw [hfirst] at hx
    cases hsecond : y t with
    | ok b t' =>
      rw [hsecond] at hx
      obtain ⟨rfl, past, h⟩ := hx
      exact hf a past s' t' hfirst h
    | error j t' =>
      rw [hsecond] at hx
      exact hx.elim
  | error i s' =>
    rw [hfirst] at hx
    cases hsecond : y t with
    | ok b t' =>
      rw [hsecond] at hx
      exact hx.elim
    | error j t' =>
      rw [hsecond] at hx
      exact hx

namespace Shows

theorem reported (h : M.Shows past s t) {d d' : Diagnostic}
    (hd : d.Respelled M.respelling d') : M.Shows past (s.reported d) (t.reported d') :=
  { h with
    reports := List.rel_append h.reports (.cons (M.report h.reporter hd) .nil) }

theorem keeping (h : M.Shows past s t) (numbered : Stmt Site) (value : Value) :
    M.Shows past (s.keeping numbered value)
      (t.keeping (numbered.respell M.respelling none) (value.respell M.respelling)) :=
  { h with
    results := by
      simp only [Session.keeping, h.results, h.mode, Session.kept_respell, List.map_append] }

/-- The distances of the past and of a new statement are the same when the bindings of the statement
have been recorded. -/
theorem find?_recorded (h : M.Shows past s t) {numbered : Stmt Site} {bindings : List Binding}
    {after : Site} (hs : Taken s.nextSite numbered bindings after) {v : Visit}
    (hv : (Setting.behind (past ++ [numbered]) (s.machine.distances.record bindings)).Bound v) :
    (t.machine.distances.record bindings).find? v.site =
      (s.machine.distances.record bindings).find? v.site := by
  obtain ⟨⟨root, hroot, hvisit⟩, hfind⟩ := hv
  rcases List.mem_append.mp hroot with hold | hnew
  · have hsite := h.steady.site_lt hold hvisit
    have hne : ∀ b ∈ bindings, b.site ≠ v.site :=
      fun b hb heq => Nat.not_lt.mpr (hs.le_site hb) (heq ▸ hsite)
    have hsame := Machine.Steady.find?_record (m := s.machine) hs hsite
    rw [Distances.find?_record_of_forall_ne hne, hsame]
    exact h.agree ⟨⟨root, hold, hvisit⟩, hsame.symm.trans hfind⟩
  · obtain rfl := List.mem_singleton.mp hnew
    have hfresh : t.machine.distances.find? v.site = none := by
      by_contra hfound
      exact Nat.not_lt.mpr (hs.fresh.lower v hvisit) (h.known v.site hfound)
    refine Eq.trans ?_ hfind.symm
    rw [hs.bindings_eq]
    exact Distances.find?_record_visits hs.fresh.nodup hvisit hfresh

/-- A statement has been resolved. -/
theorem recorded (h : M.Shows past s t) {numbered : Stmt Site} {bindings : List Binding}
    {after : Site} (hs : Taken s.nextSite numbered bindings after) (hadmits : M.Admits numbered) :
    M.Shows (past ++ [numbered]) (s.recorded bindings after)
      (t.recorded (bindings.map (Binding.respell M.respelling)) after) where
  mode := h.mode
  path := h.path
  nextSite := rfl
  results := h.results
  reports := h.reports
  reporter := h.reporter
  machine := by
    have hmachine := h.machine
    simp only [Session.recorded]
    rw [hmachine]
  steady := h.steady.pass hs
  spelled := by
    intro root hroot
    rcases List.mem_append.mp hroot with hold | hnew
    · exact h.spelled root hold
    · rw [List.mem_singleton.mp hnew]
      exact hadmits.spelled
  within := h.within
  agree := by
    intro v hv
    simp only [Session.recorded, Distances.record_respell]
    exact h.find?_recorded hs hv
  known := by
    intro site hfound
    simp only [Session.recorded, Distances.record_respell] at hfound
    by_cases hold : ∀ b ∈ bindings, b.site ≠ site
    · rw [Distances.find?_record_of_forall_ne hold] at hfound
      exact Nat.lt_of_lt_of_le (h.known site hfound) hs.fresh.le
    · push Not at hold
      obtain ⟨b, hb, rfl⟩ := hold
      exact hs.site_lt hb
  same := by
    intro hupkeep
    simp only [Session.recorded, Distances.record_respell, h.same hupkeep]

/-- Behind a statement the transient distances are not needed any more. -/
theorem tended (h : M.Shows past s t) {numbered : Stmt Site} (hroot : numbered ∈ past) {depth : Nat}
    {bindings : List Binding} (hresolve : numbered.resolve depth = (.ok (), bindings)) :
    M.Shows past (s.tended .forgetting bindings s.machine)
      (t.tended M.upkeep (bindings.map (Binding.respell M.respelling)) t.machine) where
  mode := h.mode
  path := h.path
  nextSite := h.nextSite
  results := h.results
  reports := h.reports
  reporter := h.reporter
  machine := by
    have hmachine := h.machine
    simp only [Session.tended]
    rw [hmachine]
  steady := h.steady.forget hroot hresolve
  spelled := h.spelled
  within := h.within
  agree := by
    intro v hv
    by_cases hspared : ∀ b ∈ transient bindings, b.site ≠ v.site
    · have hothers : ∀ b ∈ transient (bindings.map (Binding.respell M.respelling)),
          b.site ≠ v.site := by
        rw [transient_respell]
        intro b hb
        obtain ⟨c, hc, rfl⟩ := List.mem_map.mp hb
        exact hspared c hc
      obtain ⟨hreference, hfind⟩ := hv
      have hsame := Distances.find?_forget_of_forall_ne (d := s.machine.distances) hspared
      exact (M.upkeep.spares hothers).trans
        ((h.agree ⟨hreference, hsame.symm.trans hfind⟩).trans hsame.symm)
    · -- Such a reference is bound no more.
      push Not at hspared
      obtain ⟨b, hb, hsite⟩ := hspared
      exact absurd hv (h.steady.not_bound_of_forgotten hroot hresolve hb hsite)
  known := by
    intro site hfound
    by_cases hspared : ∀ b ∈ transient (bindings.map (Binding.respell M.respelling)), b.site ≠ site
    · exact h.known site fun hnone => hfound ((M.upkeep.spares hspared).trans hnone)
    · push Not at hspared
      obtain ⟨b, hb, rfl⟩ := hspared
      obtain ⟨c, hc, rfl⟩ := List.mem_map.mp (List.mem_filter.mp hb).1
      rw [Stmt.resolve_eq_ok hresolve] at hc
      obtain ⟨v, hv, hvc⟩ := List.mem_filterMap.mp hc
      have hlt := h.steady.site_lt hroot hv
      rwa [← Visit.site_of_binding? hvc] at hlt
  same := by
    intro hupkeep
    simp only [Session.tended, hupkeep, Upkeep.forgetting, transient_respell, Distances.forget_respell,
      h.same hupkeep]

theorem done_eq (h : M.Shows past s t) : t.machine.done = s.machine.done := by
  rw [h.machine]

theorem output_eq (h : M.Shows past s t) : t.machine.output = s.machine.output := by
  rw [h.machine]

theorem machine_eq (h : M.Shows past s t) :
    (M.translation t.machine.distances).machine s.machine = t.machine :=
  h.machine.symm

theorem faithful (h : M.Shows past s t) : (M.translation t.machine.distances).Faithful
    (.behind past s.machine.distances) M.forms where
  references := fun {v} ⟨root, hroot, hvisit⟩ => h.spelled root hroot v hvisit
  distances := h.agree
  injective := M.proper.injective
  function := M.proper.function

/-- Typed machines that are the same but for the spelling take the places of the old ones. -/
theorem change (h : M.Shows past s t) {T : Typing} {m : Machine}
    (hm : m.Ready (.behind past s.machine.distances) M.forms T Machine.globals) :
    M.Shows past { s with machine := m }
      { t with machine := (M.translation t.machine.distances).machine m } :=
  have hdistances : m.distances = s.machine.distances := hm.typed.distances
  { h with
    machine := rfl
    steady := h.steady.of_typed hm.typed hm.current
    within := hm.within
    agree := by
      simp only [hdistances]
      exact h.agree
    same := by
      simp only [hdistances]
      exact h.same }

end Shows

/-- Two runs of machines have ended in the same way, and the sessions with the machines that they
leave mirror each other. -/
inductive Ran (M : Mirror) (past : List (Stmt Site)) (s t : Session) :
    EStateM.Result Stop Machine Value → EStateM.Result Stop Machine Value → Prop where
  | ok {value : Value} {m m' : Machine}
    (h : M.Shows past { s with machine := m } { t with machine := m' }) :
    Ran M past s t (.ok value m) (.ok (value.respell M.respelling) m')
  | error {stop stop' : Stop} {m m' : Machine}
    (hstop : stop.Respelled M.respelling M.forms.faults stop')
    (h : M.Shows past { s with machine := m } { t with machine := m' }) :
    Ran M past s t (.error stop m) (.error stop' m')

namespace Shows

/-- A statement is executed in both spellings. -/
theorem interpret (h : M.Shows past s t) {numbered : Stmt Site}
    (hplaced : numbered.Placed (.behind past s.machine.distances) .outermost)
    (hadmits : M.Admits numbered) (rounds depth : Nat) :
    M.Ran past s t (Run.interpret rounds depth numbered s.machine)
      (Run.interpret rounds depth (numbered.respell M.respelling none) t.machine) := by
  obtain ⟨T, hT⟩ := h.steady.typed
  have hcarries := h.faithful.carries_interpret (fun _ => rfl) hT.globals hplaced hadmits.within
    rounds depth s.machine ⟨hT, h.within, h.steady.current⟩
  rw [h.machine_eq] at hcarries
  cases hrun : Run.interpret rounds depth numbered s.machine with
  | ok value m =>
    rw [hrun] at hcarries
    obtain ⟨⟨T', -, hm, -⟩, heq⟩ := hcarries
    have hother : Run.interpret rounds depth (numbered.respell M.respelling none) t.machine = _ := heq
    rw [hother]
    exact .ok (h.change hm)
  | error stop m =>
    rw [hrun] at hcarries
    obtain ⟨⟨T', -, hm⟩, stop', hstop, heq⟩ := hcarries
    have hother : Run.interpret rounds depth (numbered.respell M.respelling none) t.machine = _ := heq
    rw [hother]
    exact .error hstop (h.change hm)

/-- What the sessions make of such runs. -/
theorem settle {r r' : EStateM.Result Stop Machine Value} (hran : M.Ran past s t r r')
    {numbered : Stmt Site} (hroot : numbered ∈ past) {depth : Nat} {bindings : List Binding}
    (hresolve : numbered.resolve depth = (.ok (), bindings)) :
    M.Shown (s.settle .forgetting numbered bindings r)
      (t.settle M.upkeep (numbered.respell M.respelling none)
        (bindings.map (Binding.respell M.respelling)) r') := by
  cases hran with
  | @ok value m m' h =>
    have htended := h.tended hroot hresolve
    have hdone : m'.done = m.done := h.done_eq
    simp only [Session.settle, hdone]
    by_cases hm : m.done = true
    · simp only [hm, if_true]
      exact ⟨rfl, past, htended⟩
    · simp only [hm]
      exact ⟨rfl, past, htended.keeping numbered value⟩
  | @error stop stop' m m' hstop h =>
    have htended := h.tended hroot hresolve
    cases hstop with
    | error cause line scope => exact ⟨rfl, past, htended.reported (.runtime cause line scope)⟩
    | fault _ f => rfl
    | unfinished => rfl

/-- What the sessions do with a statement that has been numbered. -/
theorem perform (h : M.Shows past s t) {numbered : Stmt Site} {statement : Stmt Unit} {after : Site}
    (hread : statement.Read) (hnumber : statement.number s.nextSite = (numbered, after))
    (hadmits : M.Admits numbered) (limits : Limits) (run : Bool) :
    M.Shown (Session.perform .forgetting limits numbered after run s)
      (Session.perform M.upkeep limits (numbered.respell M.respelling none) after run t) := by
  unfold Session.perform
  cases hresolve : numbered.resolve limits.scoping with
  | mk resolution bindings =>
    cases resolution with
    | error failure =>
      obtain ⟨others, hother⟩ :=
        Stmt.resolve_respell_of_error M.proper hadmits.within hadmits.spelled hresolve
      rw [hother]
      cases failure with
      | error e => exact ⟨rfl, past, h.reported (.same _ _ _)⟩
      | fault f => rfl
    | ok _ =>
      rw [Stmt.resolve_respell_of_ok M.proper hadmits.within hadmits.spelled hresolve]
      obtain ⟨stream, depth, hstream⟩ := hread
      have hs : Taken s.nextSite numbered bindings after :=
        ⟨⟨stream, depth, statement, hstream, hnumber⟩, limits.scoping, hresolve⟩
      have hrecorded := h.recorded hs hadmits
      have hroot : numbered ∈ past ++ [numbered] := List.mem_append_right _ List.mem_cons_self
      cases run with
      | true =>
        exact settle (hrecorded.interpret (h.steady.placed hs) hadmits _ _) hroot hresolve
      | false =>
        exact ⟨(Session.passed_respell _ _).symm, _, hrecorded.tended hroot hresolve⟩

/-- What the sessions do with items that correspond. -/
theorem handle (h : M.Shows past s t) {item other : Item} (hitems : M.Items s.nextSite item other)
    (limits : Limits) (run : Bool) :
    M.Shown (Session.handle .forgetting limits item run s)
      (Session.handle M.upkeep limits other run t) := by
  cases hitems with
  | error herror => exact ⟨rfl, past, h.reported herror⟩
  | ok hread hadmits hother =>
    unfold Session.handle
    simp only [h.nextSite, hother]
    exact h.perform hread rfl hadmits limits run

end Shows

/-- Items that correspond one after the other, from the unused number `next` on. -/
inductive Walks (M : Mirror) (limits : Limits) : Site → List Item → List Item → Prop where
  | nil (next : Site) : Walks M limits next [] []
  | cons {next : Site} {item other : Item} {items others : List Item}
    (h : M.Items next item other)
    (rest : M.Walks limits (Session.advance limits next item) items others) :
    Walks M limits next (item :: items) (other :: others)

namespace Shows

/-- Walks along items that correspond. -/
theorem walk (h : M.Shows past s t) {limits : Limits} {items others : List Item}
    (hitems : M.Walks limits s.nextSite items others) (status : Status) :
    M.Shown (Session.walk .forgetting limits items status s)
      (Session.walk M.upkeep limits others status t) := by
  induction items generalizing others past s t status with
  | nil =>
    cases hitems
    exact ⟨rfl, past, h⟩
  | cons item items ih =>
    cases hitems with
    | @cons _ _ other _ others hitem hrest =>
      simp only [Session.walk, get_bind_apply, h.mode]
      refine Shown.bind (h.handle hitem limits _) fun ended past' s' t' hfirst h' => ?_
      rw [← Session.handle_nextSite hfirst] at hrest
      cases ended with
      | ok => exact ih h' hrest status
      | grammarError => exact ih h' hrest _
      | done => exact ⟨rfl, past', h'⟩
      | runtimeError =>
        by_cases hmode : s.mode = .script
        · simp only [hmode, if_true]
          exact ⟨rfl, past', h'⟩
        · simp only [hmode, if_false]
          exact ih h' hrest _

/-- Whether the end of the input has been executed is set alike. -/
theorem withDone (h : M.Shows past s t) (done : Bool) :
    M.Shows past { s with machine := { s.machine with done } }
      { t with machine := { t.machine with done } } :=
  { h with
    machine := by
      have hmachine := h.machine
      simp only
      rw [hmachine]
    steady := by
      obtain ⟨T, hT⟩ := h.steady.typed
      exact h.steady.of_typed (hT.congr rfl rfl) h.steady.current }

theorem closed (h : M.Shows past s t) : M.Shows past s.closed t.closed := by
  cases hs : s.mode with
  | script =>
    rw [Session.closed_of_script hs, Session.closed_of_script (h.mode.trans hs)]
    exact h
  | interactive =>
    rw [Session.closed_of_interactive hs, Session.closed_of_interactive (h.mode.trans hs)]
    exact h.withDone false

/-- The reporters are told about sources. -/
theorem quoted (h : M.Shows past s t) {r r' : Reporter} (hr : M.reporters r r') :
    M.Shows past { s with reporter := r } { t with reporter := r' } :=
  { h with reporter := hr }

/-- Sources whose items correspond. -/
theorem walkSource (h : M.Shows past s t) {limits : Limits} {source other : String}
    (hr : M.reporters (s.reporter.withFile s.path source) (t.reporter.withFile t.path other))
    (hitems : M.Walks limits s.nextSite (items limits.nesting source) (items limits.nesting other)) :
    M.Shown (Session.walkSource .forgetting limits source s)
      (Session.walkSource M.upkeep limits other t) := by
  have hquoted := h.quoted hr
  simp only [Session.walkSource, Session.quoteFrom, modify_bind_apply]
  refine Shown.bind (hquoted.walk hitems .ok) fun status past' s' t' _ h' => ?_
  exact ⟨rfl, past', h'.closed⟩

end Shows

/-- A new session mirrors itself: all that there is of names is the clock. -/
theorem Shows.start {mode : Mode} {path : String} {clock : Nat → Float} {reporter : Reporter}
    (h : Session.start mode path clock reporter = .ok s) (hname : M.forms.name "clock")
    (hclock : M.respelling.declared none "clock" = "clock")
    (hreporter : M.reporters s.reporter s.reporter) : M.Shows [] s s := by
  obtain ⟨hmachine, hnext, hresults, hreports⟩ := Session.start_eq_ok h
  have hrespell : (Machine.initial clock).store.respell M.respelling =
      (Machine.initial clock).store := by
    have hframe : (Store.empty.push [] none).frames[Machine.globals]? = some ⟨[], none, []⟩ := rfl
    have hdefine : ((Store.empty.push [] none).define Machine.globals "clock" _).respell _ = _ :=
      Store.respell_define M.respelling hframe (.native .clock)
    have hempty : Store.empty.respell M.respelling = .empty := by simp [Store.respell, Store.empty]
    rw [hclock, Store.respell_push, hempty] at hdefine
    exact hdefine
  refine ⟨rfl, rfl, rfl, ?_, ?_, hreporter, ?_, ?_, by simp, ?_, fun _ => rfl, ?_, fun _ => rfl⟩
  · rw [hresults]
    rfl
  · rw [hreports]
    exact .nil
  · rw [hmachine, hrespell]
  · rw [hmachine, hnext]
    exact .initial clock
  · rw [hmachine]
    have hempty : (Store.empty.push [] none).Within M.forms :=
      Store.Within.push ⟨fun {id f} hf => by simp [Store.empty] at hf⟩ [] none
    exact hempty.define _ hname trivial
  · rw [hmachine]
    exact fun site h => absurd rfl h

end Mirror

end Lox
