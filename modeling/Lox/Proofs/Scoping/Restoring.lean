import Lox.Proofs.Scoping.Frames
import Lox.Proofs.Scoping.Keeping

/-!
# Runs restore the current frame

Blocks and calls make another frame current while they run, and the old one again when they are
left, in whatever way they are left. So what is evaluated or executed leaves the current frame as it
was, however it ends, and it only adds to the frames and to their names.
-/
namespace Lox
open Outcome

/-- A reason to end a run inside a statement: any but a return outside of all functions, which only
ends a whole statement. -/
def Stop.Inner (stop : Stop) : Prop := ∀ line, stop ≠ .error ⟨.topLevelReturn, line⟩

/-- A run that was begun at `m` has left a machine that `m` goes on in. If it has come to its end,
then what it gives satisfies `post` with the frames that there are now. -/
def Leaves {α : Type} (m : Machine) (post : FrameId → α → Prop) :
    EStateM.Result Stop Machine α → Prop
  | .ok a m' => m.Outlives m' ∧ post m'.store.next a
  | .error stop m' => m.Outlives m' ∧ stop.Inner

/-- A run that does so wherever it is begun. -/
def Restores {α : Type} (post : FrameId → α → Prop) (x : Run α) : Prop :=
  ∀ m : Machine, m.Sound → Leaves m post (x m)

namespace Leaves
variable {α β : Type} {m m' : Machine} {post : FrameId → α → Prop} {post' : FrameId → β → Prop}
  {x : Run α} {f : α → Run β} {id : FrameId} {value : Value}

/-- Nothing is known of what a run gives. -/
def Anything {α : Type} (_ : FrameId) (_ : α) : Prop := True

/-- A value that has been made. -/
def Gives (next : FrameId) (value : Value) : Prop := value.Made next

/-- Values that have been made. -/
def GivesAll (next : FrameId) (values : List Value) : Prop := ∀ value ∈ values, value.Made next

/-- A return hands on a value that has been made. -/
def Completes (next : FrameId) (completion : Completion) : Prop :=
  ∀ returned ∈ completion, returned.value.Made next

theorem completes_none (next : FrameId) : Completes next none := fun _ h => by cases h

theorem ok (hm : m.Sound) {a : α} (ha : post m.store.next a) : Leaves m post (.ok a m) :=
  ⟨hm.outlives_self, ha⟩

theorem error (hm : m.Sound) {stop : Stop} (hstop : stop.Inner) : Leaves m post (.error stop m) :=
  ⟨hm.outlives_self, hstop⟩

theorem fail (hm : m.Sound) {cause : RuntimeError.Cause} (hcause : cause ≠ .topLevelReturn)
    (line : Option Int) : Leaves m post (Run.fail cause line m) :=
  error hm fun _ h => hcause (congrArg RuntimeError.cause (Stop.error.inj h))

theorem fault (hm : m.Sound) (f : Fault) : Leaves m post (Run.fault f m) :=
  error hm fun _ h => by cases h

/-- A run that is begun where another one has ended. -/
theorem behind (h : m.Outlives m') {r : EStateM.Result Stop Machine α} (hr : Leaves m' post r) :
    Leaves m post r := by
  cases r with
  | ok a t => exact ⟨h.trans hr.1, hr.2⟩
  | error stop t => exact ⟨h.trans hr.1, hr.2⟩

theorem outlives {r : EStateM.Result Stop Machine α} (h : Leaves m post r) : m.Outlives (final r) := by
  cases r with
  | ok a t => exact h.1
  | error stop t => exact h.1

/-- A run is followed by others, which start at the machines that it leaves. -/
theorem bind (hx : Leaves m post (x m))
    (hf : ∀ {a m'}, m.Outlives m' → post m'.store.next a → Leaves m' post' (f a m')) :
    Leaves m post' ((x >>= f) m) := by
  rw [bind_apply]
  cases hrun : x m with
  | error stop t =>
    rw [hrun] at hx
    exact hx
  | ok a t =>
    rw [hrun] at hx
    exact (hf hx.1 hx.2).behind hx.1

theorem map {g : α → β} (hx : Leaves m post (x m)) (hg : ∀ {next a}, post next a → post' next (g a)) :
    Leaves m post' ((g <$> x) m) := by
  have hbind : g <$> x = x >>= fun a => Pure.pure (g a) := rfl
  rw [hbind]
  exact hx.bind fun h ha => ok h.sound (hg ha)

/-! ## Steps -/

theorem define (hm : m.Sound) (id : FrameId) (name : String) (hvalue : value.Made m.store.next)
    (line : Option Int) : Leaves m Anything (Run.define id name value line m) := by
  have hget : Run.define id name value line m =
      (if m.store.binds id name then Run.fail (.alreadyDeclared name) line
        else modify fun m => { m with store := m.store.define id name value }) m := rfl
  rw [hget]
  split
  · exact fail hm (fun h => by cases h) line
  · exact ⟨hm.define id name hvalue, trivial⟩

theorem readIn (hm : m.Sound) (id : FrameId) (name : String) (line : Option Int) :
    Leaves m Gives (Run.readIn id name line m) := by
  simp only [Run.readIn, get_bind_apply]
  cases hread : m.store.read? id name with
  | none => exact fail hm (fun h => by cases h) line
  | some value => exact ok hm (hm.of_read? hread)

theorem writeIn (hm : m.Sound) (id : FrameId) (name : String) (hvalue : value.Made m.store.next)
    (line : Option Int) : Leaves m Gives (Run.writeIn id name value line m) := by
  simp only [Run.writeIn, get_bind_apply]
  split
  · refine ⟨hm.write id name hvalue, ?_⟩
    exact hvalue.mono (hm.write id name hvalue).next
  · exact fail hm (fun h => by cases h) line

theorem ancestor (hm : m.Sound) (id : FrameId) (distance : Nat) :
    Leaves m Anything (Run.ancestor id distance m) := by
  simp only [Run.ancestor, get_bind_apply]
  cases m.store.ancestor? id distance with
  | none => exact fault hm _
  | some frame => exact ok hm trivial

theorem read (hm : m.Sound) (site : Site) (name : Token) :
    Leaves m Gives (Run.read site name m) := by
  simp only [Run.read, get_bind_apply]
  cases m.distances.find? site with
  | some distance =>
    exact (ancestor hm m.current distance).bind fun h _ => readIn h.sound _ _ _
  | none =>
    simp only [Run.lookup, get_bind_apply]
    cases m.store.owner? Machine.globals name.lexeme with
    | none => exact fail hm (fun h => by cases h) _
    | some owner => exact readIn hm _ _ _

theorem write (hm : m.Sound) (site : Site) (name : Token) (hvalue : value.Made m.store.next) :
    Leaves m Gives (Run.write site name value m) := by
  simp only [Run.write, get_bind_apply]
  cases m.distances.find? site with
  | some distance =>
    exact (ancestor hm m.current distance).bind fun h _ =>
      writeIn h.sound _ _ (hvalue.mono h.next) _
  | none =>
    simp only [Run.assign, get_bind_apply]
    cases m.store.owner? Machine.globals name.lexeme with
    | none => exact fail hm (fun h => by cases h) _
    | some owner => exact writeIn hm _ _ hvalue _

/-- The new frame is one of the frames that there are now. -/
theorem enter (hm : m.Sound) {outer : FrameId} (houter : outer < m.store.next) (origin : Option Site) :
    Leaves m (fun next frame => frame < next) (Run.enter outer origin m) :=
  ⟨hm.push houter origin, by simp⟩

theorem unary (operator : Token) (operand : Value) : Restores Gives (Run.unary operator operand) := by
  unfold Run.unary
  split
  · exact fun _ hm => ok hm trivial
  · exact fun _ hm => ok hm trivial
  · exact fun _ hm => fail hm (fun h => by cases h) _

theorem add (line : Int) (left right : Value) : Restores Gives (Run.add line left right) := by
  unfold Run.add
  split
  · exact fun _ hm => ok hm trivial
  · exact fun _ hm => fail hm (fun h => by cases h) _
  · exact fun _ hm => ok hm trivial
  · exact fun _ hm => fail hm (fun h => by cases h) _
  · exact fun _ hm => fail hm (fun h => by cases h) _

theorem calculate (operator : Token) (left right : Value) :
    Restores Gives (Run.calculate operator left right) := by
  unfold Run.calculate
  split
  · split
    · exact fun _ hm => fault hm _
    · exact fun _ hm => ok hm trivial
  · exact fun _ hm => fail hm (fun h => by cases h) _
  · exact fun _ hm => fail hm (fun h => by cases h) _

theorem binary (operator : Token) (left right : Value) :
    Restores Gives (Run.binary operator left right) := by
  unfold Run.binary
  split
  · exact fun _ hm => ok hm trivial
  · exact fun _ hm => ok hm trivial
  · exact add _ _ _
  · exact calculate _ _ _

theorem readClock : Restores Gives Run.readClock :=
  fun _ hm => ⟨hm.outlives_of_eq rfl rfl, trivial⟩

/-! ## Blocks of steps -/

theorem mapM {γ : Type} {g : γ → Run Value} {cs : List γ} (hm : m.Sound)
    (hg : ∀ c ∈ cs, Restores Gives (g c)) :
    Leaves m GivesAll (cs.mapM g m) := by
  induction cs generalizing m with
  | nil => exact ok hm (fun _ h => by cases h)
  | cons c cs ih =>
    rw [List.mapM_cons]
    refine (hg c List.mem_cons_self m hm).bind fun {value m'} h hvalue => ?_
    refine (ih h.sound fun d hd => hg d (List.mem_cons_of_mem _ hd)).bind fun h' hvalues => ?_
    exact ok h'.sound (List.forall_mem_cons.2 ⟨hvalue.mono h'.next, hvalues⟩)

theorem bindParameters (hm : m.Sound) (frame : FrameId) {params : List Token} {arguments : List Value}
    (harguments : ∀ value ∈ arguments, value.Made m.store.next) :
    Leaves m Anything (Run.bindParameters frame params arguments m) := by
  induction params generalizing arguments m with
  | nil => exact ok hm trivial
  | cons param params ih =>
    cases arguments with
    | nil => exact ok hm trivial
    | cons argument arguments =>
      obtain ⟨hargument, harguments⟩ := List.forall_mem_cons.1 harguments
      exact (define hm frame _ hargument _).bind fun h _ =>
        ih h.sound fun value hvalue => (harguments value hvalue).mono h.next

/-- Running something in another frame, and making the old one current again in any case. -/
theorem within (hm : m.Sound) {frame : FrameId} (hframe : frame < m.store.next)
    (hx : Restores post x) : Leaves m post (Run.within frame x m) := by
  have hback : ∀ {m' : Machine}, Machine.Outlives { m with current := frame } m' →
      m.Outlives { m' with current := m.current } := fun h =>
    ⟨h.sound.inFrame (Nat.lt_of_lt_of_le hm.current h.next), rfl, h.next, h.chain, h.names⟩
  have hleaves := hx _ (hm.inFrame hframe)
  simp only [Run.within]
  cases hrun : x { m with current := frame } with
  | ok a m' =>
    rw [hrun] at hleaves
    exact ⟨hback hleaves.1, hleaves.2⟩
  | error stop m' =>
    rw [hrun] at hleaves
    exact ⟨hback hleaves.1, hleaves.2⟩

theorem sequence {run : Stmt Site → Run Completion} {ss : List (Stmt Site)} (hm : m.Sound)
    (hrun : ∀ s ∈ ss, Restores Completes (run s)) :
    Leaves m Completes (Run.sequence run ss m) := by
  induction ss generalizing m with
  | nil => exact ok hm (completes_none _)
  | cons s ss ih =>
    refine (hrun s List.mem_cons_self m hm).bind fun {completion m'} h hcompletion => ?_
    cases completion with
    | none => exact ih h.sound fun t ht => hrun t (List.mem_cons_of_mem _ ht)
    | some returned => exact ok h.sound hcompletion

theorem loop {condition : Run Bool} {body : Run Completion} (hm : m.Sound)
    (hcondition : Restores Anything condition) (hbody : Restores Completes body) (rounds : Nat) :
    Leaves m Completes (Run.loop condition body rounds m) := by
  induction rounds generalizing m with
  | zero => exact error hm fun _ h => by cases h
  | succ rounds ih =>
    refine (hcondition m hm).bind fun {holds m'} h _ => ?_
    cases holds with
    | false => exact ok h.sound (completes_none _)
    | true =>
      refine (hbody m' h.sound).bind fun {completion m''} h' hcompletion => ?_
      cases completion with
      | none => exact ih h'.sound
      | some returned => exact ok h'.sound hcompletion

theorem call {run : Stmt Site → Run Completion} (hm : m.Sound)
    (hrun : ∀ s, Restores Completes (run s)) (line : Int) {callee : Value}
    (hcallee : callee.Made m.store.next) {arguments : List Value}
    (harguments : GivesAll m.store.next arguments) :
    Leaves m Gives (Run.call run line callee arguments m) := by
  unfold Run.call
  cases callee.arity? with
  | none => exact fail hm (fun h => by cases h) _
  | some arity =>
    by_cases hlength : arguments.length = arity
    · simp only [hlength, if_true]
      cases callee with
      | atom value => exact readClock m hm
      | native function => exact readClock m hm
      | closure function =>
        refine (enter hm hcallee function.site).bind fun {frame m'} h hframe => ?_
        refine (bindParameters h.sound frame fun value hvalue =>
          (harguments value hvalue).mono h.next).bind fun {_ m''} h' _ => ?_
        have hbody : Restores Completes (Run.sequence run function.body) :=
          fun _ hm' => sequence hm' fun s _ => hrun s
        have hlt : frame < m''.store.next := Nat.lt_of_lt_of_le hframe h'.next
        refine (within h'.sound hlt hbody).bind fun {completion _} h'' hcompletion => ?_
        refine ok h''.sound ?_
        cases completion with
        | none => trivial
        | some returned => exact hcompletion returned rfl
    · simp only [hlength, if_false]
      exact fail hm (fun h => by cases h) _

end Leaves

namespace Run
variable {rounds depth : Nat}

/-- The runs of expressions and statements that are walked at most so deep. -/
structure RestoresUpTo (rounds depth : Nat) : Prop where
  evaluate : ∀ e, Restores Leaves.Gives (Access.byDistance.evaluate rounds depth e)
  execute : ∀ s, Restores Leaves.Completes (Access.byDistance.execute rounds depth s)

namespace RestoresUpTo

theorem evaluate_succ (ih : RestoresUpTo rounds depth) (e : Expr Site) :
    Restores Leaves.Gives (Access.byDistance.evaluate rounds (depth + 1) e) := by
  intro m hm
  cases e with
  | literal value => exact .ok hm trivial
  | grouping inner => exact ih.evaluate inner m hm
  | unary operator operand =>
    exact (ih.evaluate operand m hm).bind fun h _ => Leaves.unary operator _ _ h.sound
  | binary left operator right =>
    refine (ih.evaluate left m hm).bind fun h _ => ?_
    exact (ih.evaluate right _ h.sound).bind fun h' _ => Leaves.binary operator _ _ _ h'.sound
  | logical left operator right =>
    refine (ih.evaluate left m hm).bind fun {value m'} h hvalue => ?_
    by_cases hdecides : decides operator value = true
    · simp only [hdecides, if_true]
      exact .ok h.sound hvalue
    · simp only [hdecides]
      exact ih.evaluate right m' h.sound
  | «variable» site name => exact Leaves.read hm site name
  | assignment site name value =>
    exact (ih.evaluate value m hm).bind fun h hvalue => Leaves.write h.sound site name hvalue
  | call callee paren arguments =>
    refine (ih.evaluate callee m hm).bind fun h hcallee => ?_
    refine (Leaves.mapM h.sound fun e _ => ih.evaluate e).bind fun h' harguments => ?_
    exact Leaves.call h'.sound ih.execute paren.line (hcallee.mono h'.next) harguments
  | «foreign» what => exact Leaves.fault hm _

theorem execute_succ (ih : RestoresUpTo rounds depth) (s : Stmt Site) :
    Restores Leaves.Completes (Access.byDistance.execute rounds (depth + 1) s) := by
  intro m hm
  cases s with
  | expression value =>
    exact (ih.evaluate value m hm).bind fun h _ => .ok h.sound (Leaves.completes_none _)
  | print value =>
    refine (ih.evaluate value m hm).bind fun h _ => ?_
    exact ⟨h.sound.outlives_of_eq rfl rfl, Leaves.completes_none _⟩
  | assert keyword condition =>
    refine (ih.evaluate condition m hm).bind fun {value m'} h _ => ?_
    by_cases htruthy : value.isTruthy = true
    · simp only [htruthy, if_true]
      exact .ok h.sound (Leaves.completes_none _)
    · simp only [htruthy]
      exact .fail h.sound (fun h => by cases h) _
  | «variable» name initializer =>
    have hdefine : ∀ {value : Value} {m : Machine}, m.Sound → value.Made m.store.next →
        Leaves m Leaves.Completes
          ((do define (← get).current name.lexeme value name.line; return none : Run Completion) m) :=
      fun {value m} hm hvalue => (Leaves.define hm m.current _ hvalue _).bind fun h _ =>
        .ok h.sound (Leaves.completes_none _)
    cases initializer with
    | none => exact hdefine hm trivial
    | some initializer => exact (ih.evaluate initializer m hm).bind fun h hvalue => hdefine h.sound hvalue
  | block site body =>
    have hbody : Restores Leaves.Completes (sequence (Access.byDistance.execute rounds depth) body) :=
      fun _ hm' => Leaves.sequence hm' fun s _ => ih.execute s
    exact (Leaves.enter hm hm.current site).bind fun h hframe => Leaves.within h.sound hframe hbody
  | conditional condition yes no =>
    refine (ih.evaluate condition m hm).bind fun {value m'} h _ => ?_
    by_cases htruthy : value.isTruthy = true
    · simp only [htruthy, if_true]
      exact ih.execute yes m' h.sound
    · simp only [htruthy]
      cases no with
      | none => exact .ok h.sound (Leaves.completes_none _)
      | some no => exact ih.execute no m' h.sound
  | loop condition body =>
    exact Leaves.loop hm (fun m hm => (ih.evaluate condition m hm).map fun _ => trivial)
      (ih.execute body) rounds
  | function site name params body =>
    have hclosure : (Value.closure ⟨site, name, params, body, m.current⟩).Made m.store.next :=
      hm.current
    exact (Leaves.define hm m.current _ hclosure _).bind fun h _ =>
      .ok h.sound (Leaves.completes_none _)
  | «return» keyword value =>
    have hreturned : ∀ {value : Value} {m : Machine}, m.Sound → value.Made m.store.next →
        Leaves m Leaves.Completes (.ok (some ⟨value, keyword.line⟩) m) := by
      refine fun {value m} hm hvalue => .ok hm ?_
      rintro _ ⟨rfl⟩
      exact hvalue
    cases value with
    | none => exact hreturned hm trivial
    | some value => exact (ih.evaluate value m hm).bind fun h hvalue => hreturned h.sound hvalue
  | endMarker => exact ⟨hm.outlives_of_eq rfl rfl, Leaves.completes_none _⟩
  | «foreign» what => exact Leaves.fault hm _

end RestoresUpTo

/-- Evaluation and execution, however they end, leave a machine that the old one goes on in. -/
theorem restoresUpTo (rounds depth : Nat) : RestoresUpTo rounds depth := by
  induction depth with
  | zero =>
    exact ⟨fun _ _ hm => .fail hm (fun h => by cases h) _, fun _ _ hm => .fail hm (fun h => by cases h) _⟩
  | succ depth ih => exact ⟨ih.evaluate_succ, ih.execute_succ⟩

/-- A statement that stands by itself leaves the same machine as its execution or, if it is an
expression, as its evaluation. -/
theorem final_interpret (rounds depth : Nat) (s : Stmt Site) (m : Machine) :
    (∃ e, s = .expression e ∧
      final (interpret rounds depth s m) = final (evaluate rounds depth e m)) ∨
      final (interpret rounds depth s m) = final (Access.byDistance.execute rounds depth s m) := by
  by_cases hs : ∀ e, s ≠ .expression e
  · right
    rw [interpret_eq_concluded hs, bind_apply]
    cases Access.byDistance.execute rounds depth s m with
    | error stop m' => rfl
    | ok completion m' => cases completion <;> rfl
  · push Not at hs
    obtain ⟨e, rfl⟩ := hs
    exact .inl ⟨e, rfl, rfl⟩

end Run

end Lox
