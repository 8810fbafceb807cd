import Lox.Proofs.Outcome
import Lox.Proofs.Respelling.Forms

/-!
# Executing what is read

Where no stored function has a node without a meaning, a statement without such nodes is executed
without meeting one, and the functions that it stores have none either. This is so whatever the
distances are; only a distance that leads beyond the outermost frame ends such a run with a fault.
-/
namespace Lox
open Outcome

/-- A run may end for this reason where every node has a meaning. -/
def Stop.Known : Stop → Prop
  | .fault f => f = .noSuchScope
  | .error _ | .unfinished => True

/-- Functions without nodes without a meaning are stored, the run has ended for a known reason if it
has stopped, and otherwise what it gives satisfies `post`. -/
def Meant {α : Type} (F : Forms Site) (post : α → Prop) : EStateM.Result Stop Machine α → Prop
  | .ok a m => m.store.Within F ∧ post a
  | .error stop m => m.store.Within F ∧ stop.Known

/-- A run that meets known nodes only. -/
def Familiar {α : Type} (F : Forms Site) (post : α → Prop) (x : Run α) : Prop :=
  ∀ m : Machine, m.store.Within F → Meant F post (x m)

namespace Familiar
variable {F : Forms Site} {α β : Type} {post : α → Prop} {post' : β → Prop} {x : Run α}
  {f : α → Run β}

/-- Nothing is known of what a run gives. -/
def Anything {α : Type} (_ : α) : Prop := True

/-- A completion hands on a value with known nodes only. -/
def Completes (F : Forms Site) (completion : Completion) : Prop :=
  ∀ returned ∈ completion, returned.value.Within F

theorem completes_none : Completes F none := fun _ h => by cases h

theorem pure {a : α} (ha : post a) : Familiar F post (Pure.pure a) := fun _ hm => ⟨hm, ha⟩

theorem throw {stop : Stop} (h : stop.Known) : Familiar F post (MonadExcept.throw stop) :=
  fun _ hm => ⟨hm, h⟩

theorem fail (cause : RuntimeError.Cause) (line : Option Int) :
    Familiar F post (Run.fail cause line) :=
  throw trivial

/-- A run is followed by others, which start at the machines that it leaves. -/
theorem bind (hx : Familiar F post x) (hf : ∀ {a}, post a → Familiar F post' (f a)) :
    Familiar F post' (x >>= f) := by
  intro m hm
  have hmeant := hx m hm
  rw [bind_apply]
  cases hrun : x m with
  | error stop m' =>
    rw [hrun] at hmeant
    exact hmeant
  | ok a m' =>
    rw [hrun] at hmeant
    exact hf hmeant.2 m' hmeant.1

theorem map {g : α → β} (hx : Familiar F post x) (hg : ∀ {a}, post a → post' (g a)) :
    Familiar F post' (g <$> x) := by
  have hbind : g <$> x = x >>= fun a => Pure.pure (g a) := rfl
  rw [hbind]
  exact hx.bind fun ha => pure (hg ha)

/-- A run that looks at the machine first. -/
theorem get_bind {g : Machine → Run β}
    (hg : ∀ m : Machine, m.store.Within F → Meant F post' (g m m)) :
    Familiar F post' (get >>= g) :=
  fun m hm => hg m hm

/-- Changing something else than the store. -/
theorem modify {g : Machine → Machine} (hg : ∀ m, (g m).store = m.store) :
    Familiar F Anything (modify g) :=
  fun m hm => ⟨(hg m).symm ▸ hm, trivial⟩

/-! ## Steps -/

theorem define (id : FrameId) {name : String} {value : Value} (hname : F.name name)
    (hvalue : value.Within F) (line : Option Int) :
    Familiar F Anything (Run.define id name value line) := by
  refine get_bind fun m hm => ?_
  split
  · exact fail _ _ m hm
  · exact ⟨hm.define id hname hvalue, trivial⟩

theorem readIn (id : FrameId) (name : String) (line : Option Int) :
    Familiar F (Value.Within F) (Run.readIn id name line) := by
  refine get_bind fun m hm => ?_
  cases hread : m.store.read? id name with
  | none => exact fail _ _ m hm
  | some value => exact ⟨hm, hm.of_read? hread⟩

theorem writeIn (id : FrameId) (name : String) {value : Value} (hvalue : value.Within F)
    (line : Option Int) : Familiar F (Value.Within F) (Run.writeIn id name value line) := by
  refine get_bind fun m hm => ?_
  split
  · exact ⟨hm.write id name hvalue, hvalue⟩
  · exact fail _ _ m hm

/-- The only step that can go wrong in the machinery. -/
theorem ancestor (id : FrameId) (distance : Nat) :
    Familiar F Anything (Run.ancestor id distance) := by
  refine get_bind fun m hm => ?_
  cases m.store.ancestor? id distance with
  | none =>
    have hknown : (Stop.fault .noSuchScope).Known := rfl
    exact throw hknown m hm
  | some frame => exact ⟨hm, trivial⟩

theorem read (site : Site) (name : Token) : Familiar F (Value.Within F) (Run.read site name) := by
  refine get_bind fun m hm => ?_
  cases m.distances.find? site with
  | some distance =>
    exact (ancestor m.current distance).bind (fun {frame} _ => readIn frame _ _) m hm
  | none =>
    refine get_bind (fun m hm => ?_) m hm
    cases m.store.owner? Machine.globals name.lexeme with
    | none => exact fail _ _ m hm
    | some owner => exact readIn owner _ _ m hm

theorem write (site : Site) (name : Token) {value : Value} (hvalue : value.Within F) :
    Familiar F (Value.Within F) (Run.write site name value) := by
  refine get_bind fun m hm => ?_
  cases m.distances.find? site with
  | some distance =>
    refine get_bind (fun m hm => ?_) m hm
    exact (ancestor m.current distance).bind (fun {frame} _ => writeIn frame _ hvalue _) m hm
  | none =>
    refine get_bind (fun m hm => ?_) m hm
    cases m.store.owner? Machine.globals name.lexeme with
    | none => exact fail _ _ m hm
    | some owner => exact writeIn owner _ hvalue _ m hm

theorem enter (outer : FrameId) (origin : Option Site) :
    Familiar F Anything (Run.enter outer origin) :=
  fun _ hm => ⟨hm.push _ _, trivial⟩

theorem unary (operator : Token) (operand : Value) :
    Familiar F (Value.Within F) (Run.unary operator operand) := by
  unfold Run.unary
  split
  · exact pure trivial
  · exact pure trivial
  · exact fail _ _

theorem add (line : Int) (left right : Value) :
    Familiar F (Value.Within F) (Run.add line left right) := by
  unfold Run.add
  split
  · exact pure trivial
  · exact fail _ _
  · exact pure trivial
  · exact fail _ _
  · exact fail _ _

/-- An operator that calculates is known. -/
theorem binary {operator : Token} (hoperator : operator.kind.Calculates) (left right : Value) :
    Familiar F (Value.Within F) (Run.binary operator left right) := by
  unfold Run.binary
  split
  · exact pure trivial
  · exact pure trivial
  · exact add _ _ _
  · rename_i hequal hdiffer hplus
    obtain h | h | h | hknown := hoperator
    · exact absurd h hequal
    · exact absurd h hdiffer
    · exact absurd h hplus
    · obtain ⟨operation, hoperation⟩ := Option.isSome_iff_exists.1 hknown
      unfold Run.calculate
      split
      · rw [hoperation]
        exact pure trivial
      · exact fail _ _
      · exact fail _ _

theorem readClock : Familiar F (Value.Within F) Run.readClock :=
  fun _ hm => ⟨hm, trivial⟩

theorem mapM {γ : Type} {g : γ → Run Value} {cs : List γ}
    (hg : ∀ c ∈ cs, Familiar F (Value.Within F) (g c)) :
    Familiar F (∀ value ∈ ·, Value.Within F value) (cs.mapM g) := by
  induction cs with
  | nil => exact pure (by simp)
  | cons c cs ih =>
    rw [List.mapM_cons]
    refine (hg c List.mem_cons_self).bind fun {value} hvalue => ?_
    refine (ih fun d hd => hg d (List.mem_cons_of_mem _ hd)).bind fun {values} hvalues => pure ?_
    exact List.forall_mem_cons.2 ⟨hvalue, hvalues⟩

theorem bindParameters (frame : FrameId) {params : List Token} {arguments : List Value}
    (hparams : ∀ param ∈ params, F.name param.lexeme)
    (harguments : ∀ value ∈ arguments, value.Within F) :
    Familiar F Anything (Run.bindParameters frame params arguments) := by
  induction params generalizing arguments with
  | nil => exact pure trivial
  | cons param params ih =>
    cases arguments with
    | nil => exact pure trivial
    | cons argument arguments =>
      obtain ⟨hparam, hparams⟩ := List.forall_mem_cons.1 hparams
      obtain ⟨hargument, harguments⟩ := List.forall_mem_cons.1 harguments
      exact (define frame hparam hargument _).bind fun _ => ih hparams harguments

theorem within (frame : FrameId) (hx : Familiar F post x) :
    Familiar F post (Run.within frame x) := by
  intro m hm
  have hmeant := hx { m with current := frame } hm
  simp only [Run.within]
  cases hrun : x { m with current := frame } with
  | ok a m' =>
    rw [hrun] at hmeant
    exact hmeant
  | error stop m' =>
    rw [hrun] at hmeant
    exact hmeant

theorem sequence {run : Stmt Site → Run Completion} {ss : List (Stmt Site)}
    (hrun : ∀ s ∈ ss, Familiar F (Completes F) (run s)) :
    Familiar F (Completes F) (Run.sequence run ss) := by
  induction ss with
  | nil => exact pure completes_none
  | cons s ss ih =>
    refine (hrun s List.mem_cons_self).bind fun {completion} hcompletion => ?_
    cases completion with
    | none => exact ih fun t ht => hrun t (List.mem_cons_of_mem _ ht)
    | some returned => exact pure hcompletion

theorem loop {condition : Run Bool} {body : Run Completion}
    (hcondition : Familiar F Anything condition) (hbody : Familiar F (Completes F) body)
    (rounds : Nat) : Familiar F (Completes F) (Run.loop condition body rounds) := by
  induction rounds with
  | zero => exact throw trivial
  | succ rounds ih =>
    refine hcondition.bind fun {holds} _ => ?_
    cases holds with
    | false => exact pure completes_none
    | true =>
      refine hbody.bind fun {completion} hcompletion => ?_
      cases completion with
      | none => exact ih
      | some returned => exact pure hcompletion

/-- The body of a function that is called was stored with it. -/
theorem call {run : Stmt Site → Run Completion}
    (hrun : ∀ {s : Stmt Site} {scope : Option Site}, s.Within F False scope →
      Familiar F (Completes F) (run s))
    (line : Int) {callee : Value} (hcallee : callee.Within F) {arguments : List Value}
    (harguments : ∀ value ∈ arguments, value.Within F) :
    Familiar F (Value.Within F) (Run.call run line callee arguments) := by
  unfold Run.call
  cases callee.arity? with
  | none => exact fail _ _
  | some arity =>
    by_cases hlength : arguments.length = arity
    · simp only [hlength, if_true]
      cases callee with
      | atom value => exact readClock
      | native function => exact readClock
      | closure function =>
        obtain ⟨hparams, hbody⟩ := hcallee
        refine (enter function.frame function.site).bind fun {frame} _ => ?_
        refine (bindParameters frame hparams harguments).bind fun _ => ?_
        have hsequence : Familiar F (Completes F) (Run.sequence run function.body) :=
          sequence fun s hs => hrun (Stmt.allWithin_iff.1 hbody s hs)
        refine (within frame hsequence).bind fun {completion} hcompletion => pure ?_
        cases completion with
        | none => trivial
        | some returned => exact hcompletion returned rfl
    · simp only [hlength, if_false]
      exact fail _ _

end Familiar

namespace Run
variable {F : Forms Site} {rounds depth : Nat}

/-- The runs of the expressions and statements that are walked at most so deep. -/
structure FamiliarUpTo (F : Forms Site) (rounds depth : Nat) : Prop where
  evaluate : ∀ {e : Expr Site}, e.Within F →
    Familiar F (Value.Within F) (Access.byDistance.evaluate rounds depth e)
  execute : ∀ {s : Stmt Site} {ending : Prop} {scope : Option Site}, s.Within F ending scope →
    Familiar F (Familiar.Completes F) (Access.byDistance.execute rounds depth s)

namespace FamiliarUpTo

theorem evaluate_succ (hfaults : ¬F.faults) (ih : FamiliarUpTo F rounds depth) {e : Expr Site}
    (he : e.Within F) :
    Familiar F (Value.Within F) (Access.byDistance.evaluate rounds (depth + 1) e) := by
  cases e with
  | literal value => exact .pure trivial
  | grouping inner => exact ih.evaluate (e := inner) he
  | unary operator operand =>
    exact (ih.evaluate (e := operand) he).bind fun _ => Familiar.unary operator _
  | binary left operator right =>
    obtain ⟨hoperator, hleft, hright⟩ := he
    refine (ih.evaluate hleft).bind fun _ => (ih.evaluate hright).bind fun _ => ?_
    exact Familiar.binary (hoperator.resolve_left hfaults) _ _
  | logical left operator right =>
    refine (ih.evaluate he.1).bind fun {value} hvalue => ?_
    by_cases hdecides : decides operator value = true
    · simp only [hdecides, if_true]
      exact .pure hvalue
    · simp only [hdecides]
      exact ih.evaluate he.2
  | «variable» site name => exact Familiar.read site name
  | assignment site name value =>
    exact (ih.evaluate he.2).bind fun hvalue => Familiar.write site name hvalue
  | call callee paren arguments =>
    refine (ih.evaluate he.1).bind fun hcallee => ?_
    refine (Familiar.mapM fun e hmem => ih.evaluate (Expr.allWithin_iff.1 he.2 e hmem)).bind
      fun harguments => ?_
    exact Familiar.call ih.execute paren.line hcallee harguments
  | «foreign» what => exact absurd he hfaults

theorem execute_succ (hfaults : ¬F.faults) (ih : FamiliarUpTo F rounds depth) {s : Stmt Site}
    {ending : Prop} {scope : Option Site} (hs : s.Within F ending scope) :
    Familiar F (Familiar.Completes F) (Access.byDistance.execute rounds (depth + 1) s) := by
  cases s with
  | expression value =>
    exact (ih.evaluate (e := value) hs).bind fun _ => .pure Familiar.completes_none
  | print value =>
    refine (ih.evaluate (e := value) hs).bind fun _ => ?_
    exact (Familiar.modify fun _ => rfl).bind fun _ => .pure Familiar.completes_none
  | assert keyword condition =>
    refine (ih.evaluate (e := condition) hs).bind fun {value} _ => ?_
    by_cases htruthy : value.isTruthy = true
    · simp only [htruthy, if_true]
      exact .pure Familiar.completes_none
    · simp only [htruthy]
      exact .fail _ _
  | «variable» name initializer =>
    have hdefine (hname : F.name name.lexeme) {value : Value} (hvalue : value.Within F) :
        Familiar F (Familiar.Completes F)
          (do define (← get).current name.lexeme value name.line; return none) :=
      .get_bind fun m hm => (Familiar.define m.current hname hvalue _).bind
        (fun _ => .pure Familiar.completes_none) m hm
    cases initializer with
    | none => exact hdefine hs trivial
    | some initializer => exact (ih.evaluate hs.2).bind (hdefine hs.1)
  | block site body =>
    have hbody : Familiar F (Familiar.Completes F)
        (sequence (Access.byDistance.execute rounds depth) body) :=
      Familiar.sequence fun s hmem => ih.execute (Stmt.allWithin_iff.1 hs s hmem)
    refine .get_bind fun m hm => ?_
    exact (Familiar.enter m.current site).bind (fun {frame} _ => Familiar.within frame hbody) m hm
  | conditional condition yes no =>
    cases no with
    | none =>
      refine (ih.evaluate hs.1).bind fun {value} _ => ?_
      by_cases htruthy : value.isTruthy = true
      · simp only [htruthy, if_true]
        exact ih.execute hs.2
      · simp only [htruthy]
        exact .pure Familiar.completes_none
    | some no =>
      refine (ih.evaluate hs.1).bind fun {value} _ => ?_
      by_cases htruthy : value.isTruthy = true
      · simp only [htruthy, if_true]
        exact ih.execute hs.2.1
      · simp only [htruthy]
        exact ih.execute hs.2.2
  | loop condition body =>
    exact Familiar.loop ((ih.evaluate hs.1).map fun _ => trivial) (ih.execute hs.2) rounds
  | function site name params body =>
    refine .get_bind fun m hm => ?_
    have hclosure : (Value.closure ⟨site, name, params, body, m.current⟩).Within F := hs.2
    exact (Familiar.define m.current hs.1.1 hclosure _).bind
      (fun _ => .pure Familiar.completes_none) m hm
  | «return» keyword value =>
    have hreturned {value : Value} (hvalue : value.Within F) :
        Familiar.Completes F (some ⟨value, keyword.line⟩) := by
      rintro _ ⟨rfl⟩
      exact hvalue
    cases value with
    | none => exact .pure (hreturned trivial)
    | some value => exact (ih.evaluate (e := value) hs).bind fun hvalue => .pure (hreturned hvalue)
  | endMarker =>
    exact (Familiar.modify fun _ => rfl).bind fun _ => .pure Familiar.completes_none
  | «foreign» what => exact absurd hs hfaults

end FamiliarUpTo

theorem familiarUpTo (hfaults : ¬F.faults) (rounds depth : Nat) : FamiliarUpTo F rounds depth := by
  induction depth with
  | zero => exact ⟨fun _ => .fail _ _, fun _ => .fail _ _⟩
  | succ depth ih => exact ⟨ih.evaluate_succ hfaults, ih.execute_succ hfaults⟩

/-- A statement that stands by itself, the end of the input among them. -/
theorem familiar_interpret (hfaults : ¬F.faults) (rounds depth : Nat) {s : Stmt Site} {ending : Prop}
    {scope : Option Site} (hs : s.Within F ending scope) :
    Familiar F (Value.Within F) (interpret rounds depth s) := by
  have hfamiliar := familiarUpTo hfaults rounds depth
  have hexecute {f : Completion → Run Value} (hnone : f none = pure .nil)
      (hsome : ∀ returned, f (some returned) = fail .topLevelReturn returned.line) :
      Familiar F (Value.Within F) (Access.byDistance.execute rounds depth s >>= f) := by
    refine (hfamiliar.execute hs).bind fun {completion} _ => ?_
    cases completion with
    | none =>
      rw [hnone]
      exact .pure trivial
    | some returned =>
      rw [hsome]
      exact .fail _ _
  cases s with
  | expression value => exact hfamiliar.evaluate hs
  | _ => exact hexecute rfl fun _ => rfl

/-- The only fault with which a run of known nodes can end is a step beyond the outermost frame. -/
theorem fault_of_interpret (hfaults : ¬F.faults) {rounds depth : Nat} {s : Stmt Site} {ending : Prop}
    {scope : Option Site} (hs : s.Within F ending scope) {m m' : Machine} (hm : m.store.Within F)
    {fault : Fault} (h : interpret rounds depth s m = .error (.fault fault) m') :
    fault = .noSuchScope := by
  have hmeant := familiar_interpret hfaults rounds depth hs m hm
  rw [h] at hmeant
  exact hmeant.2

end Run

end Lox
