import Lox.Proofs.Scoping.Keeping
import Lox.Proofs.Scoping.Resolution
import Lox.Syntax.Parser

/-!
# Machines that have been driven through statements

A text, or one text after the other, is executed statement by statement: a statement is read, its
sites get the next unused numbers, its references are bound, and it is executed. Between two
statements the machine is typed by the statements that it has been driven through, and the table
knows the scopes of all references that may still be evaluated: those inside functions.
-/
namespace Lox
open Outcome

/-- A statement that has been read from a text, whose sites are numbered from `next` on and whose
references are bound. `after` is the next unused number behind it. -/
structure Taken (next : Site) (s : Stmt Site) (bindings : List Binding) (after : Site) : Prop where
  readable : ∃ stream depth statement, (TokenStream.takeStatement depth stream).1 = .ok statement ∧
    statement.number next = (s, after)
  resolvable : ∃ depth, s.resolve depth = (.ok (), bindings)

/-- Machines that have been driven through the statements `past`, with the next unused number. A
statement may also be passed over instead of being executed, and its bindings outside functions may
be forgotten behind it. -/
inductive Machine.Driven : List (Stmt Site) → Site → Machine → Prop where
  | initial (clock : Nat → Float) : Driven [] 0 (.initial clock)
  | pass {past : List (Stmt Site)} {next after : Site} {m : Machine} {s : Stmt Site}
      {bindings : List Binding} (h : Driven past next m) (hs : Taken next s bindings after) :
      Driven (past ++ [s]) after { m with distances := m.distances.record bindings }
  | execute {past : List (Stmt Site)} {next after : Site} {m : Machine} {s : Stmt Site}
      {bindings : List Binding} (h : Driven past next m) (hs : Taken next s bindings after)
      (rounds depth : Nat) :
      Driven (past ++ [s]) after
        (final (Run.interpret rounds depth s { m with distances := m.distances.record bindings }))
  | forget {past : List (Stmt Site)} {next : Site} {m : Machine} {s : Stmt Site} {depth : Nat}
      {bindings : List Binding} (h : Driven past next m) (hs : s ∈ past)
      (hresolve : s.resolve depth = (.ok (), bindings)) :
      Driven past next { m with distances := m.distances.forget (transient bindings) }
  | change {past : List (Stmt Site)} {next : Site} {m m' : Machine} (h : Driven past next m)
      (hstore : m'.store = m.store) (hcurrent : m'.current = m.current)
      (hdistances : m'.distances = m.distances) : Driven past next m'

namespace Setting

/-- The setting of a machine that has been driven through some statements. -/
def behind (past : List (Stmt Site)) (distances : Distances) : Setting where
  globals name := name = "clock" ∨ ∃ s ∈ past, name ∈ s.declared
  references v := ∃ s ∈ past, v ∈ s.visits .outermost
  nested := by
    rintro v ⟨s, -, hv⟩
    exact s.nested_of_mem_visits .outermost
      (by simp [Surroundings.Declares, Surroundings.outermost]) hv
  distances := distances

end Setting

section Retyping
variable {S S' : Setting} {T : Typing}

/-- Values are typed in every setting that knows the references inside functions. -/
theorem Value.Typed.change (hbound : ∀ v, v.around.inFunction = true → S.Bound v → S'.Bound v) :
    ∀ {value : Value}, value.Typed S T → value.Typed S' T
  | .closure _, ⟨around, hframe, hvisits⟩ => by
    refine ⟨around, hframe, fun v hv => hbound v ?_ (hvisits v hv)⟩
    exact Stmt.inFunction_of_mem_allVisits rfl _ hv
  | .atom _, _ => trivial
  | .native _, _ => trivial

/-- Between two statements the table may change, as long as it knows the references inside
functions. -/
theorem Machine.Typed.change {m m' : Machine} (h : m.Typed S T)
    (hbound : ∀ v, v.around.inFunction = true → S.Bound v → S'.Bound v)
    (hglobals : ∀ name, S.globals name → S'.globals name) (hstore : m'.store = m.store)
    (hdistances : m'.distances = S'.distances) : m'.Typed S' T where
  globals := h.globals
  length := by rw [hstore, h.length]
  frames := by
    intro id path f hid hf
    rw [hstore] at hf
    have htyped := h.frames hid hf
    refine ⟨htyped.chain, htyped.origin, fun name hname => ?_, fun b hb => ?_⟩
    · have hdeclarable := htyped.names name hname
      cases path with
      | nil => exact hglobals name hdeclarable
      | cons scope path => exact hdeclarable
    · exact (htyped.values b hb).change hbound
  distances := hdistances
  history := by rw [hstore]; exact h.history

end Retyping

/-- The references of statements that stand by themselves. -/
def Stmt.outermostVisits (past : List (Stmt Site)) : List Visit :=
  past.flatMap (·.visits .outermost)

/-- What holds between two statements. -/
structure Machine.Steady (past : List (Stmt Site)) (next : Site) (m : Machine) : Prop where
  typed : ∃ T, m.Typed (.behind past m.distances) T
  current : m.current = globals
  fresh : Fresh 0 next (Stmt.outermostVisits past)
  known : ∀ site, m.distances.find? site ≠ none → site < next
  resolvable : ∀ s ∈ past, ∃ depth bindings, s.resolve depth = (.ok (), bindings)

namespace Taken
variable {next after : Site} {s : Stmt Site} {bindings : List Binding}

theorem fresh (h : Taken next s bindings after) : Fresh next after (s.visits .outermost) := by
  obtain ⟨⟨_, _, statement, -, hnumber⟩, -⟩ := h
  have hfresh := statement.fresh_number .outermost next
  rw [hnumber] at hfresh
  exact hfresh

theorem bindings_eq (h : Taken next s bindings after) :
    bindings = (s.visits .outermost).filterMap Visit.binding? := by
  obtain ⟨-, depth, hresolve⟩ := h
  exact Stmt.resolve_eq_ok hresolve

theorem le_site (h : Taken next s bindings after) {b : Binding} (hb : b ∈ bindings) :
    next ≤ b.site := by
  rw [h.bindings_eq] at hb
  obtain ⟨v, hv, hbv⟩ := List.mem_filterMap.mp hb
  rw [Visit.site_of_binding? hbv]
  exact h.fresh.lower v hv

theorem site_lt (h : Taken next s bindings after) {b : Binding} (hb : b ∈ bindings) :
    b.site < after := by
  rw [h.bindings_eq] at hb
  obtain ⟨v, hv, hbv⟩ := List.mem_filterMap.mp hb
  rw [Visit.site_of_binding? hbv]
  exact h.fresh.upper v hv

end Taken

namespace Machine.Steady
variable {past : List (Stmt Site)} {next after : Site} {m : Machine} {s : Stmt Site}
  {bindings : List Binding}

theorem initial (clock : Nat → Float) : Steady [] 0 (.initial clock) where
  typed := by
    have hsize : (Store.empty.push [] none).next = 1 := rfl
    refine ⟨[[]], rfl, rfl, fun {id path f} hid hf => ?_, rfl, ?_⟩
    · have hzero : id = 0 := by
        have hlt := (List.getElem?_eq_some_iff.mp hid).1
        simp at hlt
        omega
      subst hzero
      cases hid
      cases hf
      refine ⟨.outermost rfl, rfl, ?_, ?_⟩
      · intro name hname
        exact .inl (List.mem_singleton.mp hname)
      · intro b hb
        rw [List.mem_singleton.mp hb]
        trivial
    · exact ⟨_, (Store.History.nothing.enter [] none).declare (by rw [hsize]; exact Nat.one_pos) _ _⟩
  current := rfl
  fresh := .nil 0
  known := fun site h => absurd rfl h
  resolvable := by simp

/-- The references of the past keep their distances when new ones are recorded. -/
theorem find?_record (hs : Taken next s bindings after) {site : Site} (hsite : site < next) :
    (m.distances.record bindings).find? site = m.distances.find? site :=
  Distances.find?_record_of_forall_ne fun _ hb heq =>
    Nat.not_lt.mpr (hs.le_site hb) (heq ▸ hsite)

theorem site_lt (h : Steady past next m) {root : Stmt Site} (hroot : root ∈ past) {v : Visit}
    (hv : v ∈ root.visits .outermost) : v.site < next :=
  h.fresh.upper v (List.mem_flatMap.mpr ⟨root, hroot, hv⟩)

/-- The references of a statement are bound when its bindings have been recorded. -/
theorem bound (h : Steady past next m) (hs : Taken next s bindings after) {v : Visit}
    (hv : v ∈ s.visits .outermost) :
    (Setting.behind (past ++ [s]) (m.distances.record bindings)).Bound v := by
  refine ⟨⟨s, List.mem_append_right _ List.mem_cons_self, hv⟩, ?_⟩
  have hnew : m.distances.find? v.site = none := by
    by_contra hfound
    exact Nat.not_lt.mpr (hs.fresh.lower v hv) (h.known v.site hfound)
  show (m.distances.record bindings).find? v.site = _
  rw [hs.bindings_eq]
  exact Distances.find?_record_visits hs.fresh.nodup hv hnew

theorem placed (h : Steady past next m) (hs : Taken next s bindings after) :
    s.Placed (.behind (past ++ [s]) (m.distances.record bindings)) .outermost :=
  ⟨fun _ hv => h.bound hs hv,
    fun _ hname => .inr ⟨s, List.mem_append_right _ List.mem_cons_self, hname⟩⟩

/-- A statement is resolved. -/
theorem pass (h : Steady past next m) (hs : Taken next s bindings after) :
    Steady (past ++ [s]) after { m with distances := m.distances.record bindings } where
  typed := by
    obtain ⟨T, hT⟩ := h.typed
    refine ⟨T, hT.change (fun v _ hv => ?_) (fun name hname => ?_) rfl rfl⟩
    · obtain ⟨⟨root, hroot, hvisit⟩, hfind⟩ := hv
      refine ⟨⟨root, List.mem_append_left _ hroot, hvisit⟩, ?_⟩
      exact (find?_record hs (h.site_lt hroot hvisit)).trans hfind
    · rcases hname with hclock | ⟨root, hroot, hdeclared⟩
      · exact .inl hclock
      · exact .inr ⟨root, List.mem_append_left _ hroot, hdeclared⟩
  current := h.current
  fresh := by
    have happend : Stmt.outermostVisits (past ++ [s]) =
        Stmt.outermostVisits past ++ s.visits .outermost := by
      simp [Stmt.outermostVisits]
    rw [happend]
    exact h.fresh.append hs.fresh
  known := by
    intro site hfound
    by_cases hold : ∀ b ∈ bindings, b.site ≠ site
    · rw [Distances.find?_record_of_forall_ne hold] at hfound
      exact Nat.lt_of_lt_of_le (h.known site hfound) hs.fresh.le
    · push Not at hold
      obtain ⟨b, hb, rfl⟩ := hold
      exact hs.site_lt hb
  resolvable := by
    intro root hroot
    rcases List.mem_append.mp hroot with hold | hnew
    · exact h.resolvable root hold
    · obtain rfl := List.mem_singleton.mp hnew
      exact hs.resolvable.imp fun _ hresolve => ⟨bindings, hresolve⟩

/-- A machine that has not been changed but in typed parts is still steady. -/
theorem of_typed (h : Steady past next m) {m' : Machine} {T : Typing}
    (htyped : m'.Typed (.behind past m.distances) T) (hcurrent : m'.current = globals) :
    Steady past next m' where
  typed := by
    have hdistances : m'.distances = m.distances := htyped.distances
    exact ⟨T, by rw [hdistances]; exact htyped⟩
  current := hcurrent
  fresh := h.fresh
  known := by
    have hdistances : m'.distances = m.distances := htyped.distances
    rw [hdistances]
    exact h.known
  resolvable := h.resolvable

/-- A statement is resolved and executed. -/
theorem execute (h : Steady past next m) (hs : Taken next s bindings after) (rounds depth : Nat) :
    Steady (past ++ [s]) after
      (final (Run.interpret rounds depth s { m with distances := m.distances.record bindings })) := by
  obtain ⟨T, hT⟩ := (h.pass hs).typed
  have hkeeps := (Access.Follows.byDistance _).keeps_interpret hT.globals (h.placed hs) rounds depth
  obtain ⟨-, hends⟩ := hkeeps _ hT h.current
  unfold Run.interpret
  cases hrun : Access.byDistance.interpret rounds depth s
      { m with distances := m.distances.record bindings } with
  | ok value m' =>
    rw [hrun] at hends
    obtain ⟨T', -, htyped, hcurrent, -⟩ := hends
    exact (h.pass hs).of_typed htyped hcurrent
  | error stop m' =>
    rw [hrun] at hends
    obtain ⟨T', -, htyped, hcurrent⟩ := hends
    exact (h.pass hs).of_typed htyped hcurrent

/-- The bindings outside functions of a statement are forgotten. -/
theorem forget (h : Steady past next m) (hs : s ∈ past) {depth : Nat}
    (hresolve : s.resolve depth = (.ok (), bindings)) :
    Steady past next { m with distances := m.distances.forget (transient bindings) } where
  typed := by
    obtain ⟨T, hT⟩ := h.typed
    refine ⟨T, hT.change (fun v hv hbound => ?_) (fun _ hname => hname) rfl rfl⟩
    obtain ⟨⟨root, hroot, hvisit⟩, hfind⟩ := hbound
    refine ⟨⟨root, hroot, hvisit⟩, ?_⟩
    refine (Distances.find?_forget_of_forall_ne fun b hb hsite => ?_).trans hfind
    -- The binding of a reference outside functions has another site.
    obtain ⟨hmem, htransient⟩ := List.mem_filter.mp hb
    rw [Stmt.resolve_eq_ok hresolve] at hmem
    obtain ⟨u, hu, hub⟩ := List.mem_filterMap.mp hmem
    have huv : u = v := by
      refine List.inj_on_of_nodup_map h.fresh.nodup (List.mem_flatMap.mpr ⟨s, hs, hu⟩)
        (List.mem_flatMap.mpr ⟨root, hroot, hvisit⟩) ?_
      rw [← hsite, Visit.site_of_binding? hub]
    subst huv
    obtain ⟨distance, -, rfl⟩ := Option.map_eq_some_iff.mp hub
    simp [hv] at htransient
  current := h.current
  fresh := h.fresh
  known := by
    intro site hfound
    refine h.known site fun hnone => hfound ?_
    exact Distances.find?_forget_eq_none hnone
  resolvable := h.resolvable

end Machine.Steady

/-- Machines are steady between two statements. -/
theorem Machine.Driven.steady {past : List (Stmt Site)} {next : Site} {m : Machine}
    (h : Driven past next m) : m.Steady past next := by
  induction h with
  | initial clock => exact .initial clock
  | pass _ hs ih => exact ih.pass hs
  | execute _ hs rounds depth ih => exact ih.execute hs rounds depth
  | forget _ hs hresolve ih => exact ih.forget hs hresolve
  | change _ hstore hcurrent hdistances ih =>
    obtain ⟨T, hT⟩ := ih.typed
    exact ih.of_typed (hT.congr hstore hdistances) (hcurrent.trans ih.current)

end Lox
