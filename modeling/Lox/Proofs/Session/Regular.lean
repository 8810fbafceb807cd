import Lox.Proofs.Grammar.Lockstep
import Lox.Proofs.Respelling.Relining
import Lox.Proofs.Session.Forgetting

/-!
# Sessions of texts

What is read from a text has no nodes without a meaning, so a session of it is never interrupted by
a fault. End markers stand outside of functions, in the last statement of the text only; so no other
statement executes the end of the input.
-/
namespace Lox
open Outcome

namespace Resolver
variable {F : Forms Site} {depth : Nat} {w : Walk}

/-- A step of the resolver that cannot end with a fault. -/
def Faultless (x : Resolver Unit) : Prop :=
  ∀ w f w', x w ≠ .error (.fault f) w'

namespace Faultless
variable {x y : Resolver Unit}

theorem fail (cause : ResolutionError.Cause) (line : Option Int) : Faultless (fail cause line) :=
  fun _ _ _ h => by cases h

theorem pure : Faultless (Pure.pure ()) := fun _ _ _ h => by cases h

theorem modify (g : Walk → Walk) : Faultless (modify g) := fun _ _ _ h => by cases h

theorem bind (hx : Faultless x) (hy : Faultless y) : Faultless (x >>= fun _ => y) := by
  intro w f w' h
  rw [bind_apply] at h
  cases hrun : x w with
  | ok u t =>
    rw [hrun] at h
    exact hy t f w' h
  | error failure t =>
    rw [hrun] at h
    cases h
    exact hx w f w' hrun

theorem get_bind {g : Walk → Resolver Unit} (hg : ∀ w, Faultless (g w)) :
    Faultless (get >>= g) :=
  fun w f w' h => hg w w f w' h

theorem forM {α : Type} {g : α → Resolver Unit} {as : List α} (h : ∀ a ∈ as, Faultless (g a)) :
    Faultless (as.forM g) := by
  induction as with
  | nil => exact pure
  | cons a as ih =>
    exact (h a List.mem_cons_self).bind (ih fun b hb => h b (List.mem_cons_of_mem _ hb))

theorem declare (name : Token) : Faultless (declare name) := by
  refine get_bind fun w => ?_
  split
  · exact pure
  · split
    · exact fail _ _
    · exact fun _ _ _ h => by cases h

theorem inScope (h : Faultless x) : Faultless (inScope x) :=
  (modify _).bind (h.bind (modify _))

theorem read (site : Site) (name : Token) : Faultless (read site name) := by
  refine get_bind fun w => ?_
  split
  · exact fail _ _
  · exact modify _

theorem expression (hfaults : ¬F.faults) (depth : Nat) {e : Expr Site} (he : e.Within F) :
    Faultless (expression depth e) := by
  induction depth generalizing e with
  | zero => exact fail _ _
  | succ depth ih =>
    cases e with
    | literal value => exact pure
    | grouping inner => exact ih (e := inner) he
    | unary operator operand => exact ih (e := operand) he
    | binary left operator right => exact (ih he.2.1).bind (ih he.2.2)
    | logical left operator right => exact (ih he.1).bind (ih he.2)
    | «variable» site name => exact read site name
    | assignment site name value => exact (ih he.2).bind (modify _)
    | call callee paren arguments =>
      exact (ih he.1).bind (forM fun e hmem => ih (Expr.allWithin_iff.mp he.2 e hmem))
    | «foreign» what => exact absurd he hfaults

theorem statement (hfaults : ¬F.faults) (depth : Nat) {ending : Prop} {scope : Option Site}
    {s : Stmt Site} (hs : s.Within F ending scope) : Faultless (statement depth s) := by
  induction depth generalizing s ending scope with
  | zero => exact fail _ _
  | succ depth ih =>
    cases s with
    | expression value | print value | assert _ value => exact expression hfaults depth hs
    | «variable» name initializer =>
      cases initializer with
      | none => exact (declare name).bind pure
      | some initializer =>
        exact (declare name).bind ((modify _).bind ((expression hfaults depth hs.2).bind (modify _)))
    | block site body =>
      exact inScope (forM fun s hmem =>
        ih (Stmt.allWithin_iff.mp (hs : Stmt.AllWithin F ending (some site) body) s hmem))
    | conditional condition yes no =>
      cases no with
      | none => exact (expression hfaults depth hs.1).bind ((ih hs.2).bind pure)
      | some no => exact (expression hfaults depth hs.1).bind ((ih hs.2.1).bind (ih hs.2.2))
    | loop condition body => exact (expression hfaults depth hs.1).bind (ih hs.2)
    | function site name params body =>
      refine (declare name).bind (get_bind fun w => inScope ((modify _).bind ?_))
      refine Faultless.bind (forM fun param _ => declare param) (Faultless.bind ?_ (modify _))
      exact forM fun s hmem => ih (Stmt.allWithin_iff.mp hs.2.2 s hmem)
    | «return» keyword value =>
      cases value with
      | none => exact pure
      | some value => exact expression hfaults depth hs
    | endMarker => exact pure
    | «foreign» what => exact absurd hs hfaults

end Faultless

end Resolver

/-- What has no nodes without a meaning is resolved, or has an error of the program. -/
theorem Stmt.Within.resolve_ne_fault {F : Forms Site} (hfaults : ¬F.faults) {ending : Prop}
    {scope : Option Site} {s : Stmt Site} (hs : s.Within F ending scope) {depth : Nat} {fault : Fault}
    {bindings : List Binding} : s.resolve depth ≠ (.error (.fault fault), bindings) := by
  intro h
  unfold Stmt.resolve at h
  split at h
  · cases h
  · cases h
  · rename_i hrun
    exact Resolver.Faultless.statement hfaults depth hs _ _ _ hrun

namespace TokenStream
variable {s rest : TokenStream}

/-- What is taken before the last of a text contains no end of the input. -/
theorem Genuine.unended_of_takes {ts : List Token} (h : Grammar.Takes s ts rest) (hs : s.Genuine)
    (hrest : rest.pending ≠ []) : Grammar.Unended ts := by
  induction h with
  | nil s => exact fun t ht => by cases ht
  | @cons s s' t ts hhead htakes ih =>
    intro u hu
    rcases List.mem_cons.mp hu with rfl | hu
    · intro heof
      have hpending := hs.pending_eq_nil hhead heof
      have hle := htakes.remaining_le
      rw [tail_eq_self hpending, pending_eq_nil_iff.mp hpending] at hle
      exact hrest (pending_eq_nil_iff.mpr (Nat.le_zero.mp hle))
    · exact ih hs.tail hrest u hu

/-- Only the last statement of a text may contain the end of the input. -/
theorem Genuine.takeStatement_within (hs : s.Genuine) {depth : Nat} {statement : Stmt Unit}
    (h : s.takeStatement depth = (.ok statement, rest)) (hrest : rest.pending ≠ []) :
    statement.Within .regular False none := by
  unfold TokenStream.takeStatement at h
  cases hrun : Parser.statement depth s with
  | error error t =>
    rw [hrun] at h
    cases h
  | ok other t =>
    rw [hrun] at h
    cases h
    obtain ⟨d, htakes, rfl, -⟩ := Grammar.statement_sound depth hrun
    exact d.tree_within_of_unended none (hs.unended_of_takes htakes hrest)

end TokenStream

/-- An item of a text: a statement is regular. -/
def Item.Regular : Item → Prop
  | .error _ => True
  | .ok statement => statement.Read ∧ statement.Within .regular True none

/-- An item that contains no end of the input. -/
def Item.Unended : Item → Prop
  | .error _ => True
  | .ok statement => statement.Within .regular False none

/-- The items of a text: the last one is the end of the input, and only the one before it may contain
the end of the input as well. -/
inductive Whole : List Item → Prop where
  | marker : Whole [.ok .endMarker]
  | cons {item : Item} {items : List Item} (hitem : Item.Regular item)
    (hunended : Item.Unended item ∨ items = [.ok .endMarker]) (rest : Whole items) :
    Whole (item :: items)

theorem TokenStream.Genuine.regular_takeStatement {s : TokenStream} (hs : s.Genuine) (depth : Nat) :
    Item.Regular (s.takeStatement depth).1 := by
  cases htake : s.takeStatement depth with
  | mk item rest =>
    cases item with
    | error e => trivial
    | ok statement =>
      exact ⟨⟨s, depth, by rw [htake]⟩, Grammar.takeStatement_within hs htake⟩

/-- A text ends with the end of the input. -/
theorem whole_statementsUpTo {depth fuel : Nat} {s : TokenStream} (hs : s.Genuine)
    (hfuel : s.remaining < fuel) : Whole (s.statementsUpTo (depth + 1) fuel) := by
  induction fuel generalizing s with
  | zero => omega
  | succ fuel ih =>
    by_cases hpending : s.pending = []
    · rw [Grammar.statementsUpTo_of_end (TokenStream.takeStatement_of_pending_eq_nil hpending depth)]
      exact .marker
    · have hless := hs.remaining_takeStatement_lt hpending (depth + 1)
      have hrest := ih (hs.takeStatement (depth + 1)) (by omega)
      have hregular := hs.regular_takeStatement (depth + 1)
      cases htake : s.takeStatement (depth + 1) with
      | mk item rest =>
        rw [htake] at hless hrest hregular
        by_cases hend : item = .ok .endMarker
        · subst hend
          rw [Grammar.statementsUpTo_of_end htake]
          exact .marker
        · rw [Grammar.statementsUpTo_of_ne htake hend]
          refine .cons hregular ?_ hrest
          by_cases hlast : rest.pending = []
          · refine .inr ?_
            obtain ⟨fuel, rfl⟩ : ∃ count, fuel = count + 1 := ⟨fuel - 1, by simp only at hless; omega⟩
            exact Grammar.statementsUpTo_of_end
              (TokenStream.takeStatement_of_pending_eq_nil hlast depth)
          · refine .inl ?_
            cases item with
            | error e => trivial
            | ok statement => exact hs.takeStatement_within htake hlast

theorem Whole.regular {items : List Item} (h : Whole items) : ∀ item ∈ items, Item.Regular item := by
  induction h with
  | marker =>
    intro item hitem
    rw [List.mem_singleton.mp hitem]
    exact ⟨⟨⟨[], 1⟩, 1, rfl⟩, trivial⟩
  | cons hitem _ _ ih => exact fun other hother =>
      (List.mem_cons.mp hother).elim (fun h => h ▸ hitem) (ih other)

/-- What is taken from a text: its items, and then its end over and over. -/
theorem TokenStream.Genuine.taken_eq {depth fuel : Nat} {s : TokenStream} (hs : s.Genuine)
    (hfuel : s.remaining < fuel) (count : Nat) :
    s.taken (depth + 1) count =
      (s.statementsUpTo (depth + 1) fuel ++ List.replicate count (.ok .endMarker : Item)).take count := by
  induction count generalizing s fuel with
  | zero => rfl
  | succ count ih =>
    obtain ⟨fuel, rfl⟩ : ∃ less, fuel = less + 1 := ⟨fuel - 1, by omega⟩
    by_cases hpending : s.pending = []
    · have hend := TokenStream.takeStatement_of_pending_eq_nil hpending depth
      have hrest := ih hs hfuel
      rw [Grammar.statementsUpTo_of_end hend] at hrest ⊢
      rw [TokenStream.taken, hend, hrest, List.replicate_succ]
      simp
    · have hless := hs.remaining_takeStatement_lt hpending (depth + 1)
      cases htake : s.takeStatement (depth + 1) with
      | mk item rest =>
        have hrest := hs.takeStatement (depth + 1)
        rw [htake] at hless hrest
        have hne : item ≠ .ok .endMarker := by
          rintro rfl
          exact hpending (hs.pending_eq_nil_of_endMarker htake)
        have hfuel' : rest.remaining < fuel := by
          have hless' : rest.remaining < s.remaining := hless
          omega
        have hlength : count ≤ (rest.statementsUpTo (depth + 1) fuel ++
            List.replicate count (.ok .endMarker : Item)).length := by simp
        rw [TokenStream.taken, htake, Grammar.statementsUpTo_of_ne htake hne, ih hrest hfuel',
          List.replicate_succ', ← List.append_assoc, List.cons_append, List.cons_append,
          List.take_succ_cons, List.take_append_of_le_length hlength]

namespace Session
variable {past : List (Stmt Site)} {s : Session} {numbered : Stmt Site}

/-- Sessions between two statements of texts: the machine is steady, and what it stores is regular. -/
structure Regular (past : List (Stmt Site)) (s : Session) : Prop where
  steady : s.machine.Steady past s.nextSite
  within : s.machine.store.Within .regular

namespace Regular

theorem start {mode : Mode} {path : String} {clock : Nat → Float} {reporter : Reporter}
    (h : Session.start mode path clock reporter = .ok s) : Regular [] s :=
  have hshows : (Mirror.tending .forgetting).Shows [] s s := .start h trivial rfl rfl
  ⟨hshows.steady, hshows.within⟩

/-- Such a session mirrors itself. -/
theorem shows (h : Regular past s) : (Mirror.tending .forgetting).Shows past s s where
  mode := rfl
  path := rfl
  nextSite := rfl
  results := ((List.map_congr_left fun v _ => v.respell_none).trans (List.map_id _)).symm
  reports := List.forall₂_same.mpr fun _ _ => rfl
  reporter := rfl
  machine := by
    have hstore : s.machine.store.respell (Mirror.tending .forgetting).respelling =
        s.machine.store := s.machine.store.respell_none
    rw [hstore]
  steady := h.steady
  spelled := fun root _ => root.spelled_lines id
  within := h.within
  agree := fun _ => rfl
  known := h.steady.known
  same := fun _ => rfl

/-- What mirrored runs of regular statements leave is regular, and there is no fault. -/
theorem of_ran {upkeep : Upkeep} {t : Session} {r r' : EStateM.Result Stop Machine Value}
    (h : (Mirror.tending upkeep).Ran past s t r r') :
    Regular past { s with machine := final r } ∧ ∀ fault m, r ≠ .error (.fault fault) m := by
  cases h with
  | ok hshows => exact ⟨⟨hshows.steady, hshows.within⟩, fun _ _ h => by cases h⟩
  | error hstop hshows =>
    refine ⟨⟨hshows.steady, hshows.within⟩, fun fault m h => ?_⟩
    cases h
    cases hstop with
    | fault hfaults f => exact hfaults

/-- A regular statement is executed without a fault and leaves a regular session. -/
theorem interpret (h : Regular past s)
    (hplaced : numbered.Placed (.behind past s.machine.distances) .outermost)
    (hwithin : numbered.Within .regular True none) (rounds depth : Nat) :
    Regular past { s with machine := final (Run.interpret rounds depth numbered s.machine) } ∧
      ∀ fault m, Run.interpret rounds depth numbered s.machine ≠ .error (.fault fault) m :=
  of_ran (h.shows.interpret hplaced ⟨hwithin, numbered.spelled_lines id⟩ rounds depth)

/-- Without an end marker in it, a statement does not execute the end of the input. -/
theorem done_interpret (h : Regular past s)
    (hplaced : numbered.Placed (.behind past s.machine.distances) .outermost)
    (hwithin : numbered.Within .regular False none) (rounds depth : Nat) :
    (final (Run.interpret rounds depth numbered s.machine)).done = s.machine.done := by
  obtain ⟨T, hT⟩ := h.steady.typed
  -- A run cannot see whether it has been done before, so it does not change it.
  let Φ : Translation := { (Respelling.none : Respelling Site) with
    distances := id, done := fun _ => s.machine.done }
  have hfaithful : Φ.Faithful (.behind past s.machine.distances) .regular :=
    ⟨fun _ => rfl, fun _ => rfl, fun _ _ heq => heq, fun _ => rfl⟩
  have hending : False → Φ.done true = true := False.elim
  have hcarries := hfaithful.carries_interpret hending hT.globals hplaced hwithin rounds depth
    s.machine ⟨hT, h.within, h.steady.current⟩
  have hmachine : ∀ m : Machine, Φ.machine m = { m with done := s.machine.done } := by
    intro m
    have hstore : m.store.respell Φ.toRespelling = m.store := m.store.respell_none
    rw [Translation.machine, hstore]
    rfl
  have hnumbered : numbered.respell Φ.toRespelling Surroundings.outermost.site = numbered :=
    numbered.respell_none _
  rw [hmachine, hnumbered] at hcarries
  generalize Run.interpret rounds depth numbered s.machine = r at hcarries ⊢
  cases r with
  | ok value m =>
    obtain ⟨-, heq⟩ := hcarries
    rw [hmachine] at heq
    injection heq with _ hm
    exact (congrArg Machine.done hm : m.done = _)
  | error stop m =>
    obtain ⟨-, stop', -, heq⟩ := hcarries
    rw [hmachine] at heq
    injection heq with _ hm
    exact (congrArg Machine.done hm : m.done = _)

/-- A regular statement is resolved. -/
theorem recorded (h : Regular past s) {bindings : List Binding} {after : Site}
    (hs : Taken s.nextSite numbered bindings after) :
    Regular (past ++ [numbered]) (s.recorded bindings after) :=
  ⟨h.steady.pass hs, h.within⟩

/-- Behind a statement its transient distances are forgotten. -/
theorem tended (h : Regular past s) (hroot : numbered ∈ past) {depth : Nat} {bindings : List Binding}
    (hresolve : numbered.resolve depth = (.ok (), bindings)) :
    Regular past (s.tended .forgetting bindings s.machine) :=
  ⟨h.steady.forget hroot hresolve, h.within⟩

/-- Reports and results do not matter. -/
theorem reported (h : Regular past s) (d : Diagnostic) : Regular past (s.reported d) :=
  ⟨h.steady, h.within⟩

theorem keeping (h : Regular past s) {σ : Type} (statement : Stmt σ) (value : Value) :
    Regular past (s.keeping statement value) :=
  ⟨h.steady, h.within⟩

end Regular

/-- What can become of a statement that has been numbered. -/
inductive Performed (limits : Limits) (numbered : Stmt Site) (after : Site) (s : Session) :
    Bool → EStateM.Result Interruption Session Status → Prop where
  | unresolved {run : Bool} {error : ResolutionError} {bindings : List Binding}
    (hresolve : numbered.resolve limits.scoping = (.error (.error error), bindings)) :
    Performed limits numbered after s run (.ok .grammarError (s.reported error.diagnostic))
  | passed {bindings : List Binding}
    (hresolve : numbered.resolve limits.scoping = (.ok (), bindings)) :
    Performed limits numbered after s false (.ok (passed numbered)
      ((s.recorded bindings after).tended .forgetting bindings (s.recorded bindings after).machine))
  | done {bindings : List Binding} {value : Value} {m : Machine}
    (hresolve : numbered.resolve limits.scoping = (.ok (), bindings))
    (hrun : Run.interpret limits.rounds limits.execution numbered
      (s.recorded bindings after).machine = .ok value m) (hdone : m.done = true) :
    Performed limits numbered after s true
      (.ok .done ((s.recorded bindings after).tended .forgetting bindings m))
  | ok {bindings : List Binding} {value : Value} {m : Machine}
    (hresolve : numbered.resolve limits.scoping = (.ok (), bindings))
    (hrun : Run.interpret limits.rounds limits.execution numbered
      (s.recorded bindings after).machine = .ok value m) (hdone : m.done = false) :
    Performed limits numbered after s true
      (.ok .ok (((s.recorded bindings after).tended .forgetting bindings m).keeping numbered value))
  | runtimeError {bindings : List Binding} {error : RuntimeError} {m : Machine}
    (hresolve : numbered.resolve limits.scoping = (.ok (), bindings))
    (hrun : Run.interpret limits.rounds limits.execution numbered
      (s.recorded bindings after).machine = .error (.error error) m) :
    Performed limits numbered after s true (.ok .runtimeError
      (((s.recorded bindings after).tended .forgetting bindings m).reported error.diagnostic))
  | unfinished {bindings : List Binding} {m : Machine}
    (hresolve : numbered.resolve limits.scoping = (.ok (), bindings))
    (hrun : Run.interpret limits.rounds limits.execution numbered
      (s.recorded bindings after).machine = .error .unfinished m) :
    Performed limits numbered after s true
      (.error .unfinished ((s.recorded bindings after).tended .forgetting bindings m))

/-- A statement of a text that has been read and numbered, in a regular session. -/
structure Next (past : List (Stmt Site)) (s : Session) (numbered : Stmt Site) (after : Site) :
    Prop where
  regular : Regular past s
  taken : ∀ {depth : Nat} {bindings : List Binding},
    numbered.resolve depth = (.ok (), bindings) → Taken s.nextSite numbered bindings after
  within : numbered.Within .regular True none

namespace Next
variable {after : Site} {limits : Limits} {bindings : List Binding}

theorem of_item (h : Regular past s) {statement : Stmt Unit}
    (hitem : Item.Regular (.ok statement)) :
    Next past s (statement.number s.nextSite).1 (statement.number s.nextSite).2 where
  regular := h
  taken := by
    obtain ⟨⟨stream, depth, hread⟩, -⟩ := hitem
    exact fun hresolve => ⟨⟨stream, depth, statement, hread, rfl⟩, _, hresolve⟩
  within := hitem.2.number_regular _

/-- The statement is executed in a regular session without a fault. -/
theorem interpret (h : Next past s numbered after) {depth : Nat}
    (hresolve : numbered.resolve depth = (.ok (), bindings)) (rounds execution : Nat) :
    Regular (past ++ [numbered]) { s.recorded bindings after with
        machine := final (Run.interpret rounds execution numbered (s.recorded bindings after).machine) } ∧
      ∀ fault m, Run.interpret rounds execution numbered (s.recorded bindings after).machine ≠
        .error (.fault fault) m :=
  (h.regular.recorded (h.taken hresolve)).interpret (h.regular.steady.placed (h.taken hresolve))
    h.within rounds execution

theorem done_interpret (h : Next past s numbered after) (hunended : numbered.Within .regular False none)
    {depth : Nat} (hresolve : numbered.resolve depth = (.ok (), bindings)) (rounds execution : Nat) :
    (final (Run.interpret rounds execution numbered (s.recorded bindings after).machine)).done =
      s.machine.done :=
  (h.regular.recorded (h.taken hresolve)).done_interpret (h.regular.steady.placed (h.taken hresolve))
    hunended rounds execution

/-- A session comes to one of these ends with the statement. -/
theorem performed (h : Next past s numbered after) (limits : Limits) (run : Bool) :
    Performed limits numbered after s run
      (perform .forgetting limits numbered after run s) := by
  unfold perform
  cases hresolve : numbered.resolve limits.scoping with
  | mk resolution bindings =>
    cases resolution with
    | error failure =>
      cases failure with
      | error e => exact .unresolved hresolve
      | fault f =>
        exact absurd hresolve (Stmt.Within.resolve_ne_fault (F := .regular) (fun h => h) h.within)
    | ok _ =>
      cases run with
      | false => exact .passed hresolve
      | true =>
        obtain ⟨-, hfaultless⟩ := h.interpret hresolve limits.rounds limits.execution
        simp only [if_true]
        cases hrun : Run.interpret limits.rounds limits.execution numbered
            (s.recorded bindings after).machine with
        | ok value m =>
          simp only [settle]
          by_cases hdone : m.done = true
          · rw [if_pos hdone]
            exact .done hresolve hrun hdone
          · rw [if_neg hdone]
            exact .ok hresolve hrun (Bool.eq_false_iff.mpr hdone)
        | error stop m =>
          cases stop with
          | error e => exact .runtimeError hresolve hrun
          | fault f => exact absurd hrun (hfaultless f m)
          | unfinished => exact .unfinished hresolve hrun

/-- What the statement leaves is regular again. -/
theorem tended (h : Next past s numbered after) {depth : Nat}
    (hresolve : numbered.resolve depth = (.ok (), bindings)) {rounds execution : Nat}
    {r : EStateM.Result Stop Machine Value}
    (hrun : Run.interpret rounds execution numbered (s.recorded bindings after).machine = r) :
    Regular (past ++ [numbered])
      ((s.recorded bindings after).tended .forgetting bindings (final r)) := by
  obtain ⟨hregular, -⟩ := h.interpret hresolve rounds execution
  rw [hrun] at hregular
  exact hregular.tended (List.mem_append_right _ List.mem_cons_self) hresolve

end Next

end Session

end Lox
