import Lox.Proofs.Scoping.Restoring
import Lox.Proofs.Session.Histories

/-!
# What is left where execution gets

Execution gets from a new machine to the places between two statements and into blocks and calls, and
it goes on from there whatever way a statement or an expression has ended. In all these places the
frames stand in one another up to the globals, and all that is executed there leaves the current
frame, the parents of the frames and the names that they bind.
-/
namespace Lox
open Outcome

namespace Machine

/-- The states in which an expression is evaluated or a statement is executed, in any program. Of the
machine only the frames count: the distances, the output and the clock may be any. -/
inductive Reached : Machine → Prop where
  | initial (clock : Nat → Float) : Reached (.initial clock)
  | congr {m m' : Machine} (h : Reached m) (hstore : m'.store = m.store)
    (hcurrent : m'.current = m.current) : Reached m'
  | evaluated {m : Machine} (h : Reached m) (rounds depth : Nat) (e : Expr Site) :
    Reached (final (Run.evaluate rounds depth e m))
  | executed {m : Machine} (h : Reached m) (rounds depth : Nat) (s : Stmt Site) :
    Reached (final (Access.byDistance.execute rounds depth s m))
  /-- At the start of a block. -/
  | inBlock {m entered : Machine} (h : Reached m) {site : Site} {frame : FrameId}
    (henter : Run.enter m.current site m = .ok frame entered) :
    Reached { entered with current := frame }
  /-- At the start of the body of a function, whose parameters are bound. -/
  | inCall {m called given entered bound : Machine} (h : Reached m) {rounds depth : Nat}
    {callee : Expr Site} {arguments : List (Expr Site)} {function : Closure} {values : List Value}
    {frame : FrameId} (hcallee : Run.evaluate rounds depth callee m = .ok (.closure function) called)
    (harguments : arguments.mapM (Run.evaluate rounds depth) called = .ok values given)
    (henter : Run.enter function.frame function.site given = .ok frame entered)
    (hbind : Run.bindParameters frame function.params values entered = .ok () bound) :
    Reached { bound with current := frame }

/-- The chain of every frame is the way outwards from parent to parent, and it ends at the globals. -/
def Grounded (m : Machine) : Prop :=
  ∀ id < m.store.next,
    m.store.Outward id (m.store.chain id) ∧ (m.store.chain id).getLast? = some globals

/-- What a run leaves of the machine that it was begun at: the current frame, all frames with their
parents, and all names that they bind. -/
structure Restored (m m' : Machine) : Prop where
  current : m'.current = m.current
  parents : ∀ id < m.store.next, id < m'.store.next ∧ m'.store.parent? id = m.store.parent? id
  binds : ∀ {id name}, m.store.binds id name = true → m'.store.binds id name = true
  grounded : m'.Grounded

variable {m m' : Machine}

theorem Sound.grounded (h : m.Sound) : m.Grounded :=
  fun _ hid => h.rooted.outward hid

theorem Outlives.restored (h : m.Outlives m') : m.Restored m' where
  current := h.current
  parents id hid := by
    refine ⟨Nat.lt_of_lt_of_le hid h.next, ?_⟩
    rw [Store.parent?_eq, Store.parent?_eq, h.chain hid]
  binds {id name} hbinds := by
    rw [← Store.mem_names_iff] at hbinds ⊢
    exact (h.names id).subset hbinds
  grounded := h.sound.grounded

namespace Reached

theorem interpreted (h : m.Reached) (rounds depth : Nat) (s : Stmt Site) :
    (final (Run.interpret rounds depth s m)).Reached := by
  rcases Run.final_interpret rounds depth s m with ⟨e, -, heq⟩ | heq
  · rw [heq]
    exact h.evaluated rounds depth e
  · rw [heq]
    exact h.executed rounds depth s

theorem sound (h : m.Reached) : m.Sound := by
  induction h with
  | initial clock => exact .initial clock
  | congr _ hstore hcurrent ih => exact ih.congr hstore hcurrent
  | evaluated _ rounds depth e ih =>
    exact ((Run.restoresUpTo rounds depth).evaluate e _ ih).outlives.sound
  | executed _ rounds depth s ih =>
    exact ((Run.restoresUpTo rounds depth).execute s _ ih).outlives.sound
  | @inBlock m entered _ site frame henter ih =>
    have hentered := Leaves.enter ih ih.current site
    rw [henter] at hentered
    exact hentered.1.sound.inFrame hentered.2
  | @inCall m called given entered bound _ rounds depth callee arguments function values frame hcallee
      harguments henter hbind ih =>
    have hall := Run.restoresUpTo rounds depth
    have hcalled := hall.evaluate callee m ih
    rw [show Access.byDistance.evaluate rounds depth callee m = _ from hcallee] at hcalled
    have hgiven := Leaves.mapM hcalled.1.sound fun e (_ : e ∈ arguments) => hall.evaluate e
    rw [show arguments.mapM (Access.byDistance.evaluate rounds depth) called = _ from harguments]
      at hgiven
    have hentered := Leaves.enter hgiven.1.sound (hcalled.2.mono hgiven.1.next) function.site
    rw [henter] at hentered
    have hvalues : ∀ value ∈ values, value.Made entered.store.next :=
      fun value hvalue => (hgiven.2 value hvalue).mono hentered.1.next
    have hbound : Leaves entered Leaves.Anything (Run.bindParameters frame function.params values entered) :=
      Leaves.bindParameters hentered.1.sound frame hvalues
    rw [hbind] at hbound
    exact hbound.1.sound.inFrame (Nat.lt_of_lt_of_le hentered.2 hbound.1.next)

end Reached

end Machine

namespace Session
variable {s : Session} {limits : Limits}

theorem Performed.reached {numbered : Stmt Site} {after : Site} {run : Bool}
    {r : EStateM.Result Interruption Session Status} (h : Performed limits numbered after s run r)
    (hs : s.machine.Reached) : (final r).machine.Reached := by
  have hrun : ∀ {bindings : List Binding} {r : EStateM.Result Stop Machine Value},
      Run.interpret limits.rounds limits.execution numbered (s.recorded bindings after).machine = r →
      (final r).Reached := by
    rintro bindings _ rfl
    have hrecorded : (s.recorded bindings after).machine.Reached := hs.congr rfl rfl
    exact hrecorded.interpreted _ _ _
  cases h with
  | unresolved => exact hs
  | passed => exact hs.congr rfl rfl
  | done _ hr | ok _ hr | runtimeError _ hr | unfinished _ hr => exact (hrun hr).congr rfl rfl

/-- The machine of a session between two steps is one that execution reaches, and the globals are
current. -/
theorem History.reached (h : History s) : s.machine.Reached ∧ s.machine.current = Machine.globals := by
  refine ⟨?_, ?_⟩
  · induction h with
    | start h =>
      rw [(start_eq_ok h).1]
      exact .initial _
    | quoted _ source ih => exact ih
    | @step s hs limits stream hstream run ih =>
      obtain ⟨past, hregular⟩ := hs.regular
      rw [final_step]
      rcases hregular.handled (hstream.regular_takeStatement limits.nesting) run with
        ⟨e, -, heq⟩ | ⟨numbered, after, -, hperformed⟩
      · rw [heq]
        exact ih
      · exact hperformed.reached ih
    | @close s _ ih =>
      cases hmode : s.mode with
      | script => rwa [closed_of_script hmode]
      | interactive =>
        rw [closed_of_interactive hmode]
        exact ih.congr rfl rfl
    | @pop s _ ih =>
      obtain ⟨mode, path, machine, nextSite, results, reporter, reports⟩ := s
      cases results <;> exact ih
    | takeOutput _ ih => exact ih.congr rfl rfl
    | takeReports _ ih => exact ih
  · obtain ⟨past, hregular⟩ := h.regular
    exact hregular.steady.current

end Session

/-- In whatever state an expression is evaluated, a statement is executed or a whole statement is
interpreted, and however that ends: with a value, at its own end, with a return, with an error in
whatever call, at the depth limit, or in a loop without end. The frame that was current is current
again, every frame has the parent that it had and binds the names that it bound, and the chain of
every frame leads from parent to parent to the globals. Between the steps of a session the globals
are current. -/
theorem Machine.Reached.restores {m : Machine} (h : m.Reached) :
    m.Grounded ∧
      (∀ (rounds depth : Nat) (e : Expr Site), m.Restored (final (Run.evaluate rounds depth e m))) ∧
      (∀ (rounds depth : Nat) (s : Stmt Site),
        m.Restored (final (Access.byDistance.execute rounds depth s m)) ∧
        m.Restored (final (Run.interpret rounds depth s m)) ∧
        (m.current = Machine.globals →
          (final (Run.interpret rounds depth s m)).current = Machine.globals)) ∧
      ∀ s : Session, s.History → s.machine.Reached ∧ s.machine.current = Machine.globals := by
  have hevaluate : ∀ rounds depth e, m.Restored (final (Run.evaluate rounds depth e m)) :=
    fun rounds depth e => ((Run.restoresUpTo rounds depth).evaluate e m h.sound).outlives.restored
  have hexecute : ∀ rounds depth s,
      m.Restored (final (Access.byDistance.execute rounds depth s m)) := fun rounds depth s =>
    ((Run.restoresUpTo rounds depth).execute s m h.sound).outlives.restored
  have hinterpret : ∀ rounds depth s, m.Restored (final (Run.interpret rounds depth s m)) := by
    intro rounds depth s
    rcases Run.final_interpret rounds depth s m with ⟨e, -, heq⟩ | heq
    · rw [heq]
      exact hevaluate rounds depth e
    · rw [heq]
      exact hexecute rounds depth s
  refine ⟨h.sound.grounded, hevaluate, fun rounds depth s => ?_, fun s hs => hs.reached⟩
  exact ⟨hexecute rounds depth s, hinterpret rounds depth s,
    fun hglobals => (hinterpret rounds depth s).current.trans hglobals⟩

/-- A block inside a block, in which a return is executed: the frame of the outer one is current
again. -/
theorem Machine.Reached.restores_of_return :
    ∃ m m' : Machine, m.Reached ∧ m.current = 1 ∧
      Access.byDistance.execute 1 3 (.block 1 [.return ⟨.kwReturn, "return", none, 1⟩ none]) m =
        .ok (some ⟨.nil, 1⟩) m' ∧
      m.Restored m' ∧ m'.store.next = 3 := by
  have henter : Run.enter Machine.globals (some 0) (.initial fun _ => 0) = .ok 1 _ := rfl
  have hm := (Machine.Reached.initial fun _ => 0).inBlock henter
  have hrestored := (hm.restores.2.2.1 1 3 (.block 1 [.return ⟨.kwReturn, "return", none, 1⟩ none])).1
  exact ⟨_, _, hm, rfl, rfl, hrestored, rfl⟩

end Lox
