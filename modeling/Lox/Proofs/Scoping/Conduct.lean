import Lox.Machine.Evaluation
import Lox.Proofs.Outcome
import Lox.Proofs.Scoping.Scopes
import Lox.Proofs.Store

/-!
# What every run keeps

Whatever is executed leaves the table of distances and the current frame as they were, and the
functions that it stores come of the functions that have been executed or stored before. So a
property of all scopes of the executed statements holds of all functions that are ever called, and a
run goes the same way if parameters are bound in another way that agrees on such functions.
-/
namespace Lox
open Outcome

namespace Run

/-- A way of binding parameters to arguments in a frame. -/
abbrev Binder := FrameId → List Token → List Value → Run Unit

/-- Calls a value, and binds its parameters in some way. -/
def callWith (bind : Binder) (execute : Stmt Site → Run Completion) (line : Int) (callee : Value)
    (arguments : List Value) : Run Value := do
  match callee.arity? with
  | none => fail .notCallable line
  | some arity =>
    if arguments.length = arity then
      match callee with
      | .closure function =>
        let frame ← enter function.frame function.site
        bind frame function.params arguments
        let completion ← within frame (sequence execute function.body)
        return (completion.map (·.value)).getD .nil
      | _ => readClock
    else fail (.wrongArity arity arguments.length) line

mutual

/-- The value of an expression, where calls bind parameters in some way. -/
def evaluateWith (bind : Binder) (rounds : Nat) : Nat → Expr Site → Run Value
  | 0, _ => fail .tooDeep none
  | depth + 1, e =>
    match e with
    | .literal value => return .atom value
    | .grouping inner => evaluateWith bind rounds depth inner
    | .unary operator operand => do unary operator (← evaluateWith bind rounds depth operand)
    | .binary left operator right => do
      let left ← evaluateWith bind rounds depth left
      let right ← evaluateWith bind rounds depth right
      binary operator left right
    | .logical left operator right => do
      let left ← evaluateWith bind rounds depth left
      if decides operator left then return left else evaluateWith bind rounds depth right
    | .variable site name => read site name
    | .assignment site name value => do write site name (← evaluateWith bind rounds depth value)
    | .call callee paren arguments => do
      let callee ← evaluateWith bind rounds depth callee
      let arguments ← arguments.mapM (evaluateWith bind rounds depth)
      callWith bind (executeWith bind rounds depth) paren.line callee arguments
    | .foreign what => fault (.unknownExpression what)

/-- Executes a statement, where calls bind parameters in some way. -/
def executeWith (bind : Binder) (rounds : Nat) : Nat → Stmt Site → Run Completion
  | 0, _ => fail .tooDeep none
  | depth + 1, s =>
    match s with
    | .expression value => do
      let _ ← evaluateWith bind rounds depth value
      return none
    | .print value => do
      print (← evaluateWith bind rounds depth value).shown
      return none
    | .assert keyword condition => do
      if (← evaluateWith bind rounds depth condition).isTruthy then return none
      else fail .assertionFailed keyword.line
    | .variable name initializer => do
      let value ← match initializer with
        | none => pure .nil
        | some initializer => evaluateWith bind rounds depth initializer
      define (← get).current name.lexeme value name.line
      return none
    | .block site body => do
      let frame ← enter (← get).current site
      within frame (sequence (executeWith bind rounds depth) body)
    | .conditional condition yes no => do
      if (← evaluateWith bind rounds depth condition).isTruthy then executeWith bind rounds depth yes
      else match no with
        | none => return none
        | some no => executeWith bind rounds depth no
    | .loop condition body =>
      loop ((·.isTruthy) <$> evaluateWith bind rounds depth condition)
        (executeWith bind rounds depth body) rounds
    | .function site name params body => do
      let frame := (← get).current
      define frame name.lexeme (.closure ⟨site, name, params, body, frame⟩) name.line
      return none
    | .return keyword value => do
      let value ← match value with
        | none => pure .nil
        | some value => evaluateWith bind rounds depth value
      return some ⟨value, keyword.line⟩
    | .endMarker => do
      modify fun m => { m with done := true }
      return none
    | .foreign what => fault (.unknownStatement what)

end

/-- Executes a statement that stands by itself, where calls bind parameters in some way. -/
def interpretWith (bind : Binder) (rounds depth : Nat) (s : Stmt Site) : Run Value :=
  match s with
  | .expression value => evaluateWith bind rounds depth value
  | s => do
    match ← executeWith bind rounds depth s with
    | none => return .nil
    | some returned => fail .topLevelReturn returned.line

end Run

section Functions
variable (P : Scope → Prop)

/-- Functions that consist of such scopes, inside as well. -/
def Value.Scoped : Value → Prop
  | .closure f => P ⟨f.site, f.params, f.body⟩ ∧ ∀ scope ∈ Stmt.allScopes f.body, P scope
  | .atom _ | .native _ => True

/-- Stores of such functions. -/
structure Store.Scoped (s : Store) : Prop where
  values : ∀ {id : FrameId} {f : Frame}, s.frames[id]? = some f → ∀ b ∈ f.bindings, b.2.Scoped P

/-- What a run that was begun at `m` may leave. -/
structure Machine.Sequel (m m' : Machine) : Prop where
  store : m'.store.Scoped P
  distances : m'.distances = m.distances
  current : m'.current = m.current

end Functions

namespace Store.Scoped
variable {P : Scope → Prop} {s : Store} {name : String} {value : Value}

theorem empty : Store.empty.Scoped P := ⟨fun hf => by simp [Store.empty] at hf⟩

theorem push (h : s.Scoped P) (outer : List FrameId) (origin : Option Site) :
    (s.push outer origin).Scoped P := by
  refine ⟨fun {id f} hf => ?_⟩
  by_cases hlt : id < s.next
  · rw [frame_push_of_lt hlt] at hf
    exact h.values hf
  · have hid : id = s.next := by
      have hle : id < s.next + 1 := by simpa using lt_next hf
      exact Nat.le_antisymm (Nat.lt_succ_iff.mp hle) (Nat.not_lt.mp hlt)
    rw [hid, frame_push_next] at hf
    cases hf
    simp

theorem define (h : s.Scoped P) (id : FrameId) (name : String) (hvalue : value.Scoped P) :
    (s.define id name value).Scoped P := by
  refine ⟨fun {other f} hf => ?_⟩
  rw [frame_define] at hf
  split at hf
  · obtain ⟨g, hg, rfl⟩ := Option.map_eq_some_iff.mp hf
    intro b hb
    rcases List.mem_append.mp hb with hold | hnew
    · exact h.values hg b hold
    · rw [List.mem_singleton.mp hnew]
      exact hvalue
  · exact h.values hf

theorem write (h : s.Scoped P) (id : FrameId) (name : String) (hvalue : value.Scoped P) :
    (s.write id name value).Scoped P := by
  refine ⟨fun {other f} hf => ?_⟩
  rw [frame_write] at hf
  split at hf
  · obtain ⟨g, hg, rfl⟩ := Option.map_eq_some_iff.mp hf
    intro b hb
    obtain ⟨c, hc, rfl⟩ := List.mem_map.mp hb
    split
    · exact hvalue
    · exact h.values hg c hc
  · exact h.values hf

theorem of_read? (h : s.Scoped P) {id : FrameId} (hread : s.read? id name = some value) :
    value.Scoped P := by
  obtain ⟨f, hf, hfind⟩ := Option.bind_eq_some_iff.mp hread
  exact h.values hf _ (Frame.mem_of_find? hfind)

end Store.Scoped

/-- A way of binding that agrees with the usual one in new frames, for such functions. -/
def Run.Binder.Agrees (P : Scope → Prop) (bind : Run.Binder) : Prop :=
  ∀ {m : Machine} {frame : FrameId} {outer : List FrameId} {origin : Option Site} {f : Closure}
    {arguments : List Value}, m.store.frames[frame]? = some ⟨outer, origin, []⟩ →
      P ⟨f.site, f.params, f.body⟩ → arguments.length = f.params.length →
        bind frame f.params arguments m = Run.bindParameters frame f.params arguments m

/-- A run has left a sequel, and what it has given satisfies `post`. -/
def Settles {α : Type} (P : Scope → Prop) (post : α → Prop) (m : Machine) :
    EStateM.Result Stop Machine α → Prop
  | .ok a m' => m.Sequel P m' ∧ post a
  | .error _ m' => m.Sequel P m'

/-- A sequel depends on nothing but the table and the current frame. -/
theorem Settles.congr {α : Type} {P : Scope → Prop} {post : α → Prop} {m m' : Machine}
    {r : EStateM.Result Stop Machine α} (h : Settles P post m r)
    (hdistances : m.distances = m'.distances) (hcurrent : m.current = m'.current) :
    Settles P post m' r := by
  cases r with
  | ok a t => exact ⟨⟨h.1.store, h.1.distances.trans hdistances, h.1.current.trans hcurrent⟩, h.2⟩
  | error stop t => exact ⟨h.store, h.distances.trans hdistances, h.current.trans hcurrent⟩

/-- Two runs are the same wherever such functions are stored, and they leave a sequel. -/
def Conducts {α : Type} (P : Scope → Prop) (post : α → Prop) (x y : Run α) : Prop :=
  ∀ m : Machine, m.store.Scoped P → x m = y m ∧ Settles P post m (y m)

namespace Conducts
variable {P : Scope → Prop} {α β : Type} {post : α → Prop} {post' : β → Prop} {x y : Run α}
  {g h : α → Run β}

/-- Nothing is known of what a run gives. -/
def Anything {α : Type} (_ : α) : Prop := True

/-- A completion hands on a value of such functions. -/
def Completes (P : Scope → Prop) (completion : Completion) : Prop :=
  ∀ returned ∈ completion, returned.value.Scoped P

theorem sequel {m : Machine} (hm : m.store.Scoped P) : m.Sequel P m := ⟨hm, rfl, rfl⟩

theorem pure {a : α} (ha : post a) : Conducts P post (pure a) (Pure.pure a) :=
  fun _ hm => ⟨rfl, sequel hm, ha⟩

theorem throw (stop : Stop) : Conducts P post (throw stop) (MonadExcept.throw stop) :=
  fun _ hm => ⟨rfl, sequel hm⟩

theorem fail (cause : RuntimeError.Cause) (line : Option Int) :
    Conducts P post (Run.fail cause line) (Run.fail cause line) :=
  throw _

/-- A run is followed by others, which start at the machines that it leaves. -/
theorem bind (hx : Conducts P post x y) (hg : ∀ {a}, post a → Conducts P post' (g a) (h a)) :
    Conducts P post' (x >>= g) (y >>= h) := by
  intro m hm
  obtain ⟨heq, hsettles⟩ := hx m hm
  rw [bind_apply, bind_apply, heq]
  cases hy : y m with
  | error stop m' =>
    rw [hy] at hsettles
    exact ⟨rfl, hsettles⟩
  | ok a m' =>
    rw [hy] at hsettles
    obtain ⟨⟨hscoped, hdistances, hcurrent⟩, ha⟩ := hsettles
    obtain ⟨heq', hsettles'⟩ := hg ha m' hscoped
    refine ⟨heq', ?_⟩
    simp only
    cases hh : h a m' with
    | ok b m'' =>
      rw [hh] at hsettles'
      obtain ⟨⟨hscoped', hdistances', hcurrent'⟩, hb⟩ := hsettles'
      exact ⟨⟨hscoped', hdistances'.trans hdistances, hcurrent'.trans hcurrent⟩, hb⟩
    | error stop m'' =>
      rw [hh] at hsettles'
      obtain ⟨hscoped', hdistances', hcurrent'⟩ := hsettles'
      exact ⟨hscoped', hdistances'.trans hdistances, hcurrent'.trans hcurrent⟩

theorem map {f : α → β} (hx : Conducts P post x y) (hf : ∀ {a}, post a → post' (f a)) :
    Conducts P post' (f <$> x) (f <$> y) := by
  have hbind : ∀ z : Run α, f <$> z = z >>= fun a => Pure.pure (f a) := fun _ => rfl
  rw [hbind, hbind]
  exact hx.bind fun ha => .pure (hf ha)

/-- A run that looks at the machine first. -/
theorem get_bind {g h : Machine → Run β}
    (hgh : ∀ m : Machine, m.store.Scoped P → g m m = h m m ∧ Settles P post' m (h m m)) :
    Conducts P post' (get >>= g) (get >>= h) :=
  fun m hm => hgh m hm

/-- Changing what sequels do not look at. -/
theorem modify {f : Machine → Machine} (hf : ∀ m : Machine, m.store.Scoped P → m.Sequel P (f m)) :
    Conducts P Anything (modify f) (modify f) :=
  fun m hm => ⟨rfl, hf m hm, trivial⟩

theorem define (id : FrameId) (name : String) {value : Value} (hvalue : value.Scoped P)
    (line : Option Int) :
    Conducts P Anything (Run.define id name value line) (Run.define id name value line) := by
  refine get_bind fun m hm => ⟨rfl, ?_⟩
  split
  · exact sequel hm
  · exact ⟨⟨hm.define id name hvalue, rfl, rfl⟩, trivial⟩

theorem readIn (id : FrameId) (name : String) (line : Option Int) :
    Conducts P (Value.Scoped P) (Run.readIn id name line) (Run.readIn id name line) := by
  refine get_bind fun m hm => ⟨rfl, ?_⟩
  cases hread : m.store.read? id name with
  | none => exact sequel hm
  | some value => exact ⟨sequel hm, hm.of_read? hread⟩

theorem writeIn (id : FrameId) (name : String) {value : Value} (hvalue : value.Scoped P)
    (line : Option Int) :
    Conducts P (Value.Scoped P) (Run.writeIn id name value line) (Run.writeIn id name value line) := by
  refine get_bind fun m hm => ⟨rfl, ?_⟩
  split
  · exact ⟨⟨hm.write id name hvalue, rfl, rfl⟩, hvalue⟩
  · exact sequel hm

theorem ancestor (id : FrameId) (distance : Nat) :
    Conducts P Anything (Run.ancestor id distance) (Run.ancestor id distance) := by
  refine get_bind fun m hm => ⟨rfl, ?_⟩
  cases m.store.ancestor? id distance with
  | none => exact sequel hm
  | some ancestor => exact ⟨sequel hm, trivial⟩

theorem read (site : Site) (name : Token) :
    Conducts P (Value.Scoped P) (Run.read site name) (Run.read site name) := by
  refine get_bind fun m hm => ?_
  cases m.distances.find? site with
  | some distance =>
    exact (ancestor m.current distance).bind (fun {owner} _ => readIn owner _ _) m hm
  | none =>
    refine get_bind (fun m hm => ?_) m hm
    cases m.store.owner? Machine.globals name.lexeme with
    | none => exact fail _ _ m hm
    | some owner => exact readIn owner _ _ m hm

theorem write (site : Site) (name : Token) {value : Value} (hvalue : value.Scoped P) :
    Conducts P (Value.Scoped P) (Run.write site name value) (Run.write site name value) := by
  refine get_bind fun m hm => ?_
  cases m.distances.find? site with
  | some distance =>
    exact (ancestor m.current distance).bind (fun {owner} _ => writeIn owner _ hvalue _) m hm
  | none =>
    refine get_bind (fun m hm => ?_) m hm
    cases m.store.owner? Machine.globals name.lexeme with
    | none => exact fail _ _ m hm
    | some owner => exact writeIn owner _ hvalue _ m hm

theorem unary (operator : Token) (operand : Value) :
    Conducts P (Value.Scoped P) (Run.unary operator operand) (Run.unary operator operand) := by
  unfold Run.unary
  split
  · exact .pure trivial
  · exact .pure trivial
  · exact fail _ _

theorem add (line : Int) (left right : Value) :
    Conducts P (Value.Scoped P) (Run.add line left right) (Run.add line left right) := by
  unfold Run.add
  split
  · exact .pure trivial
  · exact fail _ _
  · exact .pure trivial
  · exact fail _ _
  · exact fail _ _

theorem calculate (operator : Token) (left right : Value) :
    Conducts P (Value.Scoped P) (Run.calculate operator left right)
      (Run.calculate operator left right) := by
  unfold Run.calculate
  split
  · split
    · exact throw _
    · exact .pure trivial
  · exact fail _ _
  · exact fail _ _

theorem binary (operator : Token) (left right : Value) :
    Conducts P (Value.Scoped P) (Run.binary operator left right) (Run.binary operator left right) := by
  unfold Run.binary
  split
  · exact .pure trivial
  · exact .pure trivial
  · exact add _ _ _
  · exact calculate _ _ _

theorem readClock : Conducts P (Value.Scoped P) Run.readClock Run.readClock :=
  fun _ hm => ⟨rfl, ⟨hm, rfl, rfl⟩, trivial⟩

theorem mapM {γ : Type} {f f' : γ → Run Value} {cs : List γ}
    (hf : ∀ c ∈ cs, Conducts P (Value.Scoped P) (f c) (f' c)) :
    Conducts P (∀ value ∈ ·, Value.Scoped P value) (cs.mapM f) (cs.mapM f') := by
  induction cs with
  | nil => exact .pure (by simp)
  | cons c cs ih =>
    rw [List.mapM_cons, List.mapM_cons]
    refine (hf c List.mem_cons_self).bind fun {value} hvalue => ?_
    refine (ih fun d hd => hf d (List.mem_cons_of_mem _ hd)).bind fun {values} hvalues => .pure ?_
    intro w hw
    rcases List.mem_cons.mp hw with rfl | hw
    · exact hvalue
    · exact hvalues w hw

theorem bindParameters (frame : FrameId) {params : List Token} {arguments : List Value}
    (harguments : ∀ value ∈ arguments, value.Scoped P) :
    Conducts P Anything (Run.bindParameters frame params arguments)
      (Run.bindParameters frame params arguments) := by
  induction params generalizing arguments with
  | nil => exact .pure trivial
  | cons param params ih =>
    cases arguments with
    | nil => exact .pure trivial
    | cons argument arguments =>
      exact (define frame _ (harguments argument List.mem_cons_self) _).bind fun _ =>
        ih fun value hvalue => harguments value (List.mem_cons_of_mem _ hvalue)

/-- Running something in a new frame, and then in the old one again. -/
theorem within (frame : FrameId) (hx : Conducts P post x y) :
    Conducts P post (Run.within frame x) (Run.within frame y) := by
  intro m hm
  obtain ⟨heq, hsettles⟩ := hx { m with current := frame } hm
  simp only [Run.within, heq]
  refine ⟨trivial, ?_⟩
  cases hy : y { m with current := frame } with
  | ok a m' =>
    rw [hy] at hsettles
    exact ⟨⟨hsettles.1.store, hsettles.1.distances, rfl⟩, hsettles.2⟩
  | error stop m' =>
    rw [hy] at hsettles
    exact ⟨hsettles.store, hsettles.distances, rfl⟩

theorem sequence {run run' : Stmt Site → Run Completion} {ss : List (Stmt Site)}
    (hrun : ∀ s ∈ ss, Conducts P (Completes P) (run s) (run' s)) :
    Conducts P (Completes P) (Run.sequence run ss) (Run.sequence run' ss) := by
  induction ss with
  | nil => exact .pure (by simp [Completes])
  | cons s ss ih =>
    refine (hrun s List.mem_cons_self).bind fun {completion} hcompletion => ?_
    cases completion with
    | none => exact ih fun t ht => hrun t (List.mem_cons_of_mem _ ht)
    | some returned => exact .pure hcompletion

theorem loop {condition condition' : Run Bool} {body body' : Run Completion}
    (hcondition : Conducts P Anything condition condition')
    (hbody : Conducts P (Completes P) body body') (rounds : Nat) :
    Conducts P (Completes P) (Run.loop condition body rounds)
      (Run.loop condition' body' rounds) := by
  induction rounds with
  | zero => exact throw _
  | succ rounds ih =>
    refine hcondition.bind fun {holds} _ => ?_
    cases holds with
    | false => exact .pure (by simp [Completes])
    | true =>
      refine hbody.bind fun {completion} hcompletion => ?_
      cases completion with
      | none => exact ih
      | some returned => exact .pure hcompletion

/-- A call makes a new frame, in which the binders agree. -/
theorem call {binder : Run.Binder} (hbinder : binder.Agrees P) {run run' : Stmt Site → Run Completion}
    (hrun : ∀ s : Stmt Site, (∀ scope ∈ s.scopes, P scope) →
      Conducts P (Completes P) (run s) (run' s))
    (line : Int) {callee : Value} (hcallee : callee.Scoped P) {arguments : List Value}
    (harguments : ∀ value ∈ arguments, value.Scoped P) :
    Conducts P (Value.Scoped P) (Run.callWith binder run line callee arguments)
      (Run.call run' line callee arguments) := by
  unfold Run.callWith Run.call
  cases harity : callee.arity? with
  | none => exact fail _ _
  | some arity =>
    by_cases hlength : arguments.length = arity
    · simp only [hlength, if_true]
      cases callee with
      | atom value => exact readClock
      | native function => exact readClock
      | closure f =>
        obtain ⟨hscope, hinside⟩ := hcallee
        have hparams : arguments.length = f.params.length := by
          rw [hlength]
          exact (Option.some.inj harity).symm
        have hbody : ∀ s ∈ f.body, Conducts P (Completes P) (run s) (run' s) := fun s hs =>
          hrun s fun scope hmem => hinside scope (Stmt.mem_allScopes.mpr ⟨s, hs, hmem⟩)
        -- Entering and binding are taken together: the frame is new only then.
        intro m hm
        let entered : Machine := { m with
          store := m.store.push (m.store.chain f.frame) (some f.site) }
        have hentered : entered.store.Scoped P := hm.push _ _
        have hnew : entered.store.frames[m.store.next]? =
            some ⟨m.store.chain f.frame, some f.site, []⟩ := Store.frame_push_next ..
        have hrest : Conducts P (Value.Scoped P)
            (Run.bindParameters m.store.next f.params arguments >>= fun _ => do
              let completion ← Run.within m.store.next (Run.sequence run f.body)
              return (completion.map (·.value)).getD .nil)
            (Run.bindParameters m.store.next f.params arguments >>= fun _ => do
              let completion ← Run.within m.store.next (Run.sequence run' f.body)
              return (completion.map (·.value)).getD .nil) := by
          refine (bindParameters _ harguments).bind fun _ => ?_
          refine (within _ (sequence hbody)).bind fun {completion} hcompletion => .pure ?_
          cases completion with
          | none => trivial
          | some returned => exact hcompletion returned rfl
        obtain ⟨heq, hsettles⟩ := hrest entered hentered
        refine ⟨Eq.trans ?_ heq, hsettles.congr rfl rfl⟩
        show (binder m.store.next f.params arguments >>= _) entered = _
        rw [bind_apply, bind_apply, hbinder hnew hscope hparams]
    · simp only [hlength, if_false]
      exact fail _ _

/-- Every function consists of scopes of some kind. -/
theorem scoped_of_any (value : Value) : value.Scoped fun _ => True := by
  cases value with
  | closure f => exact ⟨trivial, fun _ _ => trivial⟩
  | atom _ | native _ => trivial

/-- What conducts itself well leaves the table of distances as it is, however it ends. -/
theorem distances_final (h : Conducts (fun _ => True) post x y) (m : Machine) :
    (final (y m)).distances = m.distances := by
  obtain ⟨-, hsettles⟩ := h m ⟨fun _ b _ => scoped_of_any b.2⟩
  cases hrun : y m with
  | ok a m' =>
    rw [hrun] at hsettles
    exact hsettles.1.distances
  | error stop m' =>
    rw [hrun] at hsettles
    exact hsettles.distances

end Conducts

namespace Run
variable {P : Scope → Prop} {binder : Binder}

/-- The runs of the expressions and statements that are walked at most so deep. -/
structure ConductsUpTo (P : Scope → Prop) (binder : Binder) (rounds depth : Nat) : Prop where
  evaluate : ∀ e, Conducts P (Value.Scoped P) (evaluateWith binder rounds depth e)
    (Access.byDistance.evaluate rounds depth e)
  execute : ∀ s : Stmt Site, (∀ scope ∈ s.scopes, P scope) →
    Conducts P (Conducts.Completes P) (executeWith binder rounds depth s)
      (Access.byDistance.execute rounds depth s)

namespace ConductsUpTo
variable {rounds depth : Nat}

theorem evaluate_succ (hbinder : binder.Agrees P) (ih : ConductsUpTo P binder rounds depth)
    (e : Expr Site) : Conducts P (Value.Scoped P) (evaluateWith binder rounds (depth + 1) e)
      (Access.byDistance.evaluate rounds (depth + 1) e) := by
  cases e with
  | literal value => exact .pure trivial
  | grouping inner => exact ih.evaluate inner
  | unary operator operand => exact (ih.evaluate operand).bind fun _ => Conducts.unary operator _
  | binary left operator right =>
    refine (ih.evaluate left).bind fun _ => (ih.evaluate right).bind fun _ => ?_
    exact Conducts.binary operator _ _
  | logical left operator right =>
    refine (ih.evaluate left).bind fun {value} hvalue => ?_
    by_cases hdecides : decides operator value = true
    · simp only [hdecides, if_true]
      exact .pure hvalue
    · simp only [hdecides]
      exact ih.evaluate right
  | «variable» site name => exact Conducts.read site name
  | assignment site name value =>
    exact (ih.evaluate value).bind fun hvalue => Conducts.write site name hvalue
  | call callee paren arguments =>
    refine (ih.evaluate callee).bind fun hcallee => ?_
    refine (Conducts.mapM fun e _ => ih.evaluate e).bind fun harguments => ?_
    exact Conducts.call hbinder ih.execute paren.line hcallee harguments
  | «foreign» what => exact .throw _

theorem execute_succ (ih : ConductsUpTo P binder rounds depth) {s : Stmt Site}
    (hs : ∀ scope ∈ s.scopes, P scope) :
    Conducts P (Conducts.Completes P) (executeWith binder rounds (depth + 1) s)
      (Access.byDistance.execute rounds (depth + 1) s) := by
  have hnone : Conducts.Completes P none := by simp [Conducts.Completes]
  have hbody : ∀ {body : List (Stmt Site)}, (∀ scope ∈ Stmt.allScopes body, P scope) →
      Conducts P (Conducts.Completes P) (sequence (executeWith binder rounds depth) body)
        (sequence (Access.byDistance.execute rounds depth) body) := fun hall =>
    Conducts.sequence fun s hmem => ih.execute s fun scope hscope =>
      hall scope (Stmt.mem_allScopes.mpr ⟨s, hmem, hscope⟩)
  cases s with
  | expression value => exact (ih.evaluate value).bind fun _ => .pure hnone
  | print value =>
    refine (ih.evaluate value).bind fun _ => ?_
    refine Conducts.bind (Conducts.modify ?_) fun _ => .pure hnone
    exact fun m hm => ⟨hm, rfl, rfl⟩
  | assert keyword condition =>
    refine (ih.evaluate condition).bind fun {value} _ => ?_
    by_cases htruthy : value.isTruthy = true
    · simp only [htruthy, if_true]
      exact .pure hnone
    · simp only [htruthy]
      exact .fail _ _
  | «variable» name initializer =>
    have hdefine : ∀ {value : Value}, value.Scoped P →
        Conducts P (Conducts.Completes P)
          (do define (← get).current name.lexeme value name.line; return none)
          (do define (← get).current name.lexeme value name.line; return none) := fun hvalue =>
      .get_bind fun m hm => (Conducts.define m.current _ hvalue _).bind (fun _ => .pure hnone) m hm
    cases initializer with
    | none => exact hdefine trivial
    | some initializer => exact (ih.evaluate initializer).bind hdefine
  | block site body =>
    have hinside : ∀ scope ∈ Stmt.allScopes body, P scope :=
      fun scope hscope => hs scope (List.mem_cons_of_mem _ hscope)
    refine .get_bind fun m hm => ?_
    have henter : Conducts P Conducts.Anything (enter m.current site) (enter m.current site) :=
      fun m hm => ⟨rfl, ⟨hm.push _ _, rfl, rfl⟩, trivial⟩
    exact henter.bind (fun {frame} _ => Conducts.within frame (hbody hinside)) m hm
  | conditional condition yes no =>
    refine (ih.evaluate condition).bind fun {value} _ => ?_
    by_cases htruthy : value.isTruthy = true
    · simp only [htruthy, if_true]
      cases no with
      | none => exact ih.execute yes hs
      | some no => exact ih.execute yes fun scope hscope => hs scope (List.mem_append_left _ hscope)
    · simp only [htruthy]
      cases no with
      | none => exact .pure hnone
      | some no => exact ih.execute no fun scope hscope => hs scope (List.mem_append_right _ hscope)
  | loop condition body =>
    exact Conducts.loop ((ih.evaluate condition).map fun _ => trivial) (ih.execute body hs) rounds
  | function site name params body =>
    refine .get_bind fun m hm => ?_
    have hclosure : (Value.closure ⟨site, name, params, body, m.current⟩).Scoped P :=
      ⟨hs _ List.mem_cons_self, fun scope hscope => hs scope (List.mem_cons_of_mem _ hscope)⟩
    exact (Conducts.define m.current _ hclosure _).bind (fun _ => .pure hnone) m hm
  | «return» keyword value =>
    have hreturned : ∀ {value : Value}, value.Scoped P →
        Conducts.Completes P (some ⟨value, keyword.line⟩) := by
      rintro value hvalue _ ⟨rfl⟩
      exact hvalue
    cases value with
    | none => exact .pure (hreturned trivial)
    | some value => exact (ih.evaluate value).bind fun hvalue => .pure (hreturned hvalue)
  | endMarker =>
    refine Conducts.bind (Conducts.modify ?_) fun _ => .pure hnone
    exact fun m hm => ⟨hm, rfl, rfl⟩
  | «foreign» what => exact .throw _

end ConductsUpTo

theorem conductsUpTo (hbinder : binder.Agrees P) (rounds depth : Nat) :
    ConductsUpTo P binder rounds depth := by
  induction depth with
  | zero => exact ⟨fun _ => .fail _ _, fun _ _ => .fail _ _⟩
  | succ depth ih => exact ⟨ih.evaluate_succ hbinder, fun _ hs => ih.execute_succ hs⟩

/-- A statement that stands by itself is executed in the same way with every binder that agrees on
the functions that there are, and all functions that it leaves come of those. -/
theorem conducts_interpret (hbinder : binder.Agrees P) {s : Stmt Site}
    (hs : ∀ scope ∈ s.scopes, P scope) (rounds depth : Nat) :
    Conducts P (Value.Scoped P) (interpretWith binder rounds depth s) (interpret rounds depth s) := by
  have hconducts := conductsUpTo hbinder rounds depth
  have hexecute : Conducts P (Value.Scoped P)
      (do match ← executeWith binder rounds depth s with
          | none => return .nil
          | some returned => fail .topLevelReturn returned.line)
      (do match ← Access.byDistance.execute rounds depth s with
          | none => return .nil
          | some returned => fail .topLevelReturn returned.line) := by
    refine (hconducts.execute s hs).bind fun {completion} _ => ?_
    cases completion with
    | none => exact .pure trivial
    | some returned => exact .fail _ _
  cases s with
  | expression value => exact hconducts.evaluate value
  | _ => exact hexecute

/-- Every run conducts itself well with the usual binder. -/
theorem conductsUpTo_any (rounds depth : Nat) :
    ConductsUpTo (fun _ => True) bindParameters rounds depth :=
  conductsUpTo (fun _ _ _ => rfl) rounds depth

/-- Evaluation leaves the table of distances as it is, however it ends. -/
theorem distances_evaluate (rounds depth : Nat) (e : Expr Site) (m : Machine) :
    (final (evaluate rounds depth e m)).distances = m.distances :=
  Conducts.distances_final ((conductsUpTo_any rounds depth).evaluate e) m

/-- So does the execution of a part of a statement. -/
theorem distances_execute (rounds depth : Nat) (s : Stmt Site) (m : Machine) :
    (final (Access.byDistance.execute rounds depth s m)).distances = m.distances :=
  Conducts.distances_final ((conductsUpTo_any rounds depth).execute s fun _ _ => trivial) m

/-- So does the execution of a whole statement. -/
theorem distances_interpret (rounds depth : Nat) (s : Stmt Site) (m : Machine) :
    (final (interpret rounds depth s m)).distances = m.distances :=
  have hagrees : Binder.Agrees (fun _ => True) bindParameters := fun _ _ _ => rfl
  Conducts.distances_final (conducts_interpret hagrees (fun _ _ => trivial) rounds depth) m

end Run

end Lox
