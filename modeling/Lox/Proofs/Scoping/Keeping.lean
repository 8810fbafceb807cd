import Lox.Machine.Evaluation
import Lox.Proofs.Outcome
import Lox.Proofs.Scoping.Typing

/-!
# Execution keeps machines typed

Whatever is executed in its place leaves a typed machine, in which the same frame is current as
before. The only steps that depend on how references find their variables are reading them and
assigning to them. So two ways of access that agree on bound references, at typed machines whose
current frame lies where the reference stands, cannot be told apart: all runs are the same.
-/
namespace Lox
open Outcome

/-- A run that was begun at a machine of typing `T` with the current frame `frame` has left a typed
machine with the same current frame, whose typing has at most become longer. A value that it gives
satisfies `post`. -/
def Ends {α : Type} (S : Setting) (T : Typing) (frame : FrameId) (post : Typing → α → Prop) :
    EStateM.Result Stop Machine α → Prop
  | .ok a m => ∃ T', T <+: T' ∧ m.Typed S T' ∧ m.current = frame ∧ post T' a
  | .error _ m => ∃ T', T <+: T' ∧ m.Typed S T' ∧ m.current = frame

/-- Two runs are the same at every typed machine with the current frame `frame`, and they keep it
typed. -/
def Keeps {α : Type} (S : Setting) (T : Typing) (frame : FrameId) (post : Typing → α → Prop)
    (x y : Run α) : Prop :=
  ∀ m : Machine, m.Typed S T → m.current = frame → x m = y m ∧ Ends S T frame post (y m)

namespace Keeps
variable {S : Setting} {T : Typing} {frame : FrameId} {α β : Type} {post : Typing → α → Prop}
  {post' : Typing → β → Prop} {x y : Run α} {g h : α → Run β}

theorem ends_ok {m : Machine} (hm : m.Typed S T) (hcurrent : m.current = frame) {a : α}
    (ha : post T a) : Ends S T frame post (.ok a m) :=
  ⟨T, List.prefix_rfl, hm, hcurrent, ha⟩

theorem ends_error {m : Machine} (hm : m.Typed S T) (hcurrent : m.current = frame) (stop : Stop) :
    Ends S T frame post (.error stop m) :=
  ⟨T, List.prefix_rfl, hm, hcurrent⟩

theorem pure {a : α} (ha : post T a) : Keeps S T frame post (pure a) (Pure.pure a) :=
  fun _ hm hcurrent => ⟨rfl, ends_ok hm hcurrent ha⟩

theorem throw (stop : Stop) : Keeps S T frame post (throw stop) (MonadExcept.throw stop) :=
  fun _ hm hcurrent => ⟨rfl, ends_error hm hcurrent stop⟩

/-- A run is followed by others, which start at the machines that it leaves. -/
theorem bind (hx : Keeps S T frame post x y)
    (hg : ∀ {T' a}, T <+: T' → post T' a → Keeps S T' frame post' (g a) (h a)) :
    Keeps S T frame post' (x >>= g) (y >>= h) := by
  intro m hm hcurrent
  obtain ⟨heq, hends⟩ := hx m hm hcurrent
  rw [bind_apply, bind_apply, heq]
  cases hy : y m with
  | ok a m' =>
    rw [hy] at hends
    obtain ⟨T', hT, hm', hcurrent', ha⟩ := hends
    obtain ⟨heq', hends'⟩ := hg hT ha m' hm' hcurrent'
    refine ⟨heq', ?_⟩
    simp only
    cases hh : h a m' with
    | ok b m'' =>
      rw [hh] at hends'
      obtain ⟨T'', hT', hrest⟩ := hends'
      exact ⟨T'', hT.trans hT', hrest⟩
    | error stop m'' =>
      rw [hh] at hends'
      obtain ⟨T'', hT', hrest⟩ := hends'
      exact ⟨T'', hT.trans hT', hrest⟩
  | error stop m' =>
    rw [hy] at hends
    exact ⟨rfl, hends⟩

theorem map {f : α → β} (hx : Keeps S T frame post x y)
    (hf : ∀ {T' a}, T <+: T' → post T' a → post' T' (f a)) :
    Keeps S T frame post' (f <$> x) (f <$> y) := by
  have hbind : ∀ z : Run α, f <$> z = z >>= fun a => Pure.pure (f a) := fun _ => rfl
  rw [hbind, hbind]
  exact hx.bind fun hT ha => .pure (hf hT ha)

/-- A run that looks at the machine first. -/
theorem get_bind {g h : Machine → Run β}
    (hgh : ∀ m : Machine, m.Typed S T → m.current = frame →
      g m m = h m m ∧ Ends S T frame post' (h m m)) :
    Keeps S T frame post' (get >>= g) (get >>= h) :=
  fun m hm hcurrent => hgh m hm hcurrent

theorem fail (cause : RuntimeError.Cause) (line : Option Int) :
    Keeps S T frame post (Run.fail cause line) (Run.fail cause line) :=
  .throw _

theorem fault (f : Fault) : Keeps S T frame post (Run.fault f) (Run.fault f) :=
  .throw _

/-- The values of typed machines. -/
def IsTyped (S : Setting) (T : Typing) (value : Value) : Prop := value.Typed S T

/-- Nothing is known of what a run gives. -/
def Anything {α : Type} (_ : Typing) (_ : α) : Prop := True

theorem define {id : FrameId} {path : List Scope} (hid : T[id]? = some path) {name : String}
    (hname : S.Declarable path name) {value : Value} (hvalue : value.Typed S T)
    (line : Option Int) :
    Keeps S T frame Anything (Run.define id name value line) (Run.define id name value line) := by
  refine get_bind fun m hm hcurrent => ⟨rfl, ?_⟩
  split
  · exact ends_error hm hcurrent _
  · exact ends_ok (hm.define hid hname hvalue) hcurrent trivial

theorem readIn (id : FrameId) (name : String) (line : Option Int) :
    Keeps S T frame (IsTyped S) (Run.readIn id name line) (Run.readIn id name line) := by
  refine get_bind fun m hm hcurrent => ⟨rfl, ?_⟩
  cases hread : m.store.read? id name with
  | none => exact ends_error hm hcurrent _
  | some value => exact ends_ok hm hcurrent (hm.value hread)

theorem writeIn (id : FrameId) (name : String) {value : Value} (hvalue : value.Typed S T)
    (line : Option Int) :
    Keeps S T frame (IsTyped S) (Run.writeIn id name value line)
      (Run.writeIn id name value line) := by
  refine get_bind fun m hm hcurrent => ⟨rfl, ?_⟩
  split
  · exact ends_ok (hm.write id name hvalue) hcurrent hvalue
  · exact ends_error hm hcurrent _

theorem ancestor (id : FrameId) (distance : Nat) :
    Keeps S T frame Anything (Run.ancestor id distance) (Run.ancestor id distance) := by
  refine get_bind fun m hm hcurrent => ⟨rfl, ?_⟩
  cases m.store.ancestor? id distance with
  | none => exact ends_error hm hcurrent _
  | some ancestor => exact ends_ok hm hcurrent trivial

theorem lookupAt (id : FrameId) (distance : Nat) (name : String) (line : Option Int) :
    Keeps S T frame (IsTyped S) (Run.lookupAt id distance name line)
      (Run.lookupAt id distance name line) :=
  (ancestor id distance).bind fun {_ owner} _ _ => readIn owner name line

theorem assignAt (id : FrameId) (distance : Nat) (name : String) {value : Value}
    (hvalue : value.Typed S T) (line : Option Int) :
    Keeps S T frame (IsTyped S) (Run.assignAt id distance name value line)
      (Run.assignAt id distance name value line) :=
  (ancestor id distance).bind fun {_ owner} hT _ => writeIn owner name (hvalue.mono hT) line

theorem lookup (id : FrameId) (name : String) (line : Option Int) :
    Keeps S T frame (IsTyped S) (Run.lookup id name line) (Run.lookup id name line) := by
  refine get_bind fun m hm hcurrent => ?_
  cases m.store.owner? id name with
  | none => exact fail _ _ m hm hcurrent
  | some owner => exact readIn owner _ _ m hm hcurrent

theorem assign (id : FrameId) (name : String) {value : Value} (hvalue : value.Typed S T)
    (line : Option Int) :
    Keeps S T frame (IsTyped S) (Run.assign id name value line) (Run.assign id name value line) := by
  refine get_bind fun m hm hcurrent => ?_
  cases m.store.owner? id name with
  | none => exact fail _ _ m hm hcurrent
  | some owner => exact writeIn owner _ hvalue _ m hm hcurrent

/-- Reading a variable, by whatever distance, gives a typed value. -/
theorem read (site : Site) (name : Token) :
    Keeps S T frame (IsTyped S) (Run.read site name) (Run.read site name) := by
  refine get_bind fun m hm hcurrent => ?_
  cases m.distances.find? site with
  | some distance => exact lookupAt _ distance _ _ m hm hcurrent
  | none => exact lookup _ _ _ m hm hcurrent

/-- Assigning to a variable, by whatever distance, keeps the machine typed. -/
theorem write (site : Site) (name : Token) {value : Value} (hvalue : value.Typed S T) :
    Keeps S T frame (IsTyped S) (Run.write site name value) (Run.write site name value) := by
  refine get_bind fun m hm hcurrent => ?_
  cases m.distances.find? site with
  | some distance => exact assignAt m.current distance _ hvalue _ m hm hcurrent
  | none => exact assign _ _ hvalue _ m hm hcurrent

/-- Making a frame for a scope inside the scopes of another frame. -/
theorem enter {outer : FrameId} {path : List Scope} (houter : T[outer]? = some path)
    (scope : Scope) :
    Keeps S T frame (fun T' id => T'[id]? = some (scope :: path))
      (Run.enter outer (some scope.site)) (Run.enter outer (some scope.site)) := by
  refine get_bind fun m hm hcurrent => ⟨rfl, ?_⟩
  refine ⟨T ++ [scope :: path], List.prefix_append .., hm.push houter scope, hcurrent, ?_⟩
  show (T ++ [scope :: path])[m.store.next]? = some (scope :: path)
  rw [← hm.length, List.getElem?_concat_length]

/-- Running something with another current frame. -/
theorem within (id : FrameId) (hx : Keeps S T id post x y) :
    Keeps S T frame post (Run.within id x) (Run.within id y) := by
  intro m hm hcurrent
  obtain ⟨heq, hends⟩ := hx { m with current := id } (hm.congr rfl rfl) rfl
  simp only [Run.within, heq]
  refine ⟨trivial, ?_⟩
  cases hy : y { m with current := id } with
  | ok a m' =>
    rw [hy] at hends
    obtain ⟨T', hT, hm', -, ha⟩ := hends
    exact ⟨T', hT, hm'.congr rfl rfl, hcurrent, ha⟩
  | error stop m' =>
    rw [hy] at hends
    obtain ⟨T', hT, hm', -⟩ := hends
    exact ⟨T', hT, hm'.congr rfl rfl, hcurrent⟩

/-- Changing what typings do not look at. -/
theorem modify_of {f : Machine → Machine} (hstore : ∀ m, (f m).store = m.store)
    (hdistances : ∀ m, (f m).distances = m.distances) (hcurrent : ∀ m, (f m).current = m.current) :
    Keeps S T frame Anything (modify f) (modify f) := by
  intro m hm hc
  exact ⟨rfl, ends_ok (hm.congr (hstore m) (hdistances m)) ((hcurrent m).trans hc) trivial⟩

/-- A unary operator gives an atom, or there is an error. -/
theorem unary (operator : Token) (operand : Value) :
    Keeps S T frame (IsTyped S) (Run.unary operator operand) (Run.unary operator operand) := by
  unfold Run.unary
  split
  · exact .pure trivial
  · exact .pure trivial
  · exact fail _ _

theorem add (line : Int) (left right : Value) :
    Keeps S T frame (IsTyped S) (Run.add line left right) (Run.add line left right) := by
  unfold Run.add
  split
  · exact .pure trivial
  · exact fail _ _
  · exact .pure trivial
  · exact fail _ _
  · exact fail _ _

theorem calculate (operator : Token) (left right : Value) :
    Keeps S T frame (IsTyped S) (Run.calculate operator left right)
      (Run.calculate operator left right) := by
  unfold Run.calculate
  split
  · split
    · exact fault _
    · exact .pure trivial
  · exact fail _ _
  · exact fail _ _

/-- A binary operator gives an atom, or there is an error. -/
theorem binary (operator : Token) (left right : Value) :
    Keeps S T frame (IsTyped S) (Run.binary operator left right)
      (Run.binary operator left right) := by
  unfold Run.binary
  split
  · exact .pure trivial
  · exact .pure trivial
  · exact add _ _ _
  · exact calculate _ _ _

theorem readClock : Keeps S T frame (IsTyped S) Run.readClock Run.readClock :=
  get_bind fun _ hm hcurrent => ⟨rfl, T, List.prefix_rfl, hm.congr rfl rfl, hcurrent, trivial⟩

/-- Typed arguments. -/
def AreTyped (S : Setting) (T : Typing) (values : List Value) : Prop :=
  ∀ value ∈ values, value.Typed S T

/-- A return hands on a typed value. -/
def Completes (S : Setting) (T : Typing) (completion : Completion) : Prop :=
  ∀ returned ∈ completion, returned.value.Typed S T

theorem mapM {γ : Type} {f f' : γ → Run Value} {cs : List γ}
    (hf : ∀ {T' c}, T <+: T' → c ∈ cs → Keeps S T' frame (IsTyped S) (f c) (f' c)) :
    Keeps S T frame (AreTyped S) (cs.mapM f) (cs.mapM f') := by
  induction cs generalizing T with
  | nil => exact .pure (by simp [AreTyped])
  | cons c cs ih =>
    rw [List.mapM_cons, List.mapM_cons]
    refine (hf List.prefix_rfl List.mem_cons_self).bind fun {T' value} hT hvalue => ?_
    refine (ih fun hT' hc => hf (hT.trans hT') (List.mem_cons_of_mem _ hc)).bind
      fun {T'' values} hT' hvalues => .pure fun w hw => ?_
    rcases List.mem_cons.mp hw with rfl | hw
    · exact hvalue.mono hT'
    · exact hvalues w hw

theorem bindParameters {id : FrameId} {scope : Scope} {path : List Scope} {params : List Token}
    {arguments : List Value} (hid : T[id]? = some (scope :: path))
    (hparams : ∀ param ∈ params, param.lexeme ∈ scope.names) (harguments : AreTyped S T arguments) :
    Keeps S T frame Anything (Run.bindParameters id params arguments)
      (Run.bindParameters id params arguments) := by
  induction params generalizing T arguments with
  | nil => exact .pure trivial
  | cons param params ih =>
    cases arguments with
    | nil => exact .pure trivial
    | cons argument arguments =>
      have hparam : S.Declarable (scope :: path) param.lexeme := hparams param List.mem_cons_self
      refine (define hid hparam (harguments argument List.mem_cons_self) _).bind fun hT _ => ?_
      refine ih (Typing.getElem?_mono hT hid)
        (fun other hother => hparams other (List.mem_cons_of_mem _ hother)) fun value hvalue => ?_
      exact (harguments value (List.mem_cons_of_mem _ hvalue)).mono hT

end Keeps

section Statements
variable {S : Setting} {T : Typing} {frame : FrameId} {around : Surroundings}

/-- The references of an expression are bound. -/
def Expr.Placed (S : Setting) (around : Surroundings) (e : Expr Site) : Prop :=
  ∀ v ∈ e.visits around, S.Bound v

/-- The references of a statement are bound, and the scope it stands in declares its names. -/
def Stmt.Placed (S : Setting) (around : Surroundings) (s : Stmt Site) : Prop :=
  (∀ v ∈ s.visits around, S.Bound v) ∧ ∀ name ∈ s.declared, S.Declarable around.path name

/-- Statements one behind the other in one scope. -/
def Stmt.AllPlaced (S : Setting) (around : Surroundings) (ss : List (Stmt Site)) : Prop :=
  (∀ v ∈ Stmt.allVisits around ss, S.Bound v) ∧
    ∀ name ∈ Stmt.allDeclared ss, S.Declarable around.path name

theorem Stmt.AllPlaced.head {s : Stmt Site} {ss : List (Stmt Site)}
    (h : Stmt.AllPlaced S around (s :: ss)) : s.Placed S around :=
  ⟨fun v hv => h.1 v (List.mem_append_left _ hv), fun name hn => h.2 name (List.mem_append_left _ hn)⟩

theorem Stmt.AllPlaced.tail {s : Stmt Site} {ss : List (Stmt Site)}
    (h : Stmt.AllPlaced S around (s :: ss)) : Stmt.AllPlaced S (around.declare s.declared) ss :=
  ⟨fun v hv => h.1 v (List.mem_append_right _ hv),
    fun name hn => h.2 name (List.mem_append_right _ hn)⟩

end Statements

/-- Ways of access that agree with the access by distance wherever a bound reference is met. -/
structure Access.Follows (S : Setting) (access : Access) : Prop where
  read : ∀ {T : Typing} {m : Machine} {v : Visit}, m.Typed S T → S.Bound v →
    T[m.current]? = some v.around.path → access.read v.site v.name m = Run.read v.site v.name m
  write : ∀ {T : Typing} {m : Machine} {v : Visit} {value : Value}, m.Typed S T → S.Bound v →
    T[m.current]? = some v.around.path → value.Typed S T →
      access.write v.site v.name value m = Run.write v.site v.name value m

namespace Keeps
variable {S : Setting} {T : Typing} {frame : FrameId} {around : Surroundings}

theorem sequence {run run' : Stmt Site → Run Completion} {path : List Scope}
    (hrun : ∀ {T' s around}, T <+: T' → around.path = path → s.Placed S around →
      Keeps S T' frame (Completes S) (run s) (run' s))
    {ss : List (Stmt Site)} (hpath : around.path = path) (hss : Stmt.AllPlaced S around ss) :
    Keeps S T frame (Completes S) (Run.sequence run ss) (Run.sequence run' ss) := by
  induction ss generalizing T around with
  | nil => exact .pure (by simp [Completes])
  | cons s ss ih =>
    refine (hrun List.prefix_rfl hpath hss.head).bind fun {T' completion} hT hcompletion => ?_
    cases completion with
    | none =>
      have hpath' : (around.declare s.declared).path = path := hpath
      exact ih (fun hT' => hrun (hT.trans hT')) hpath' hss.tail
    | some returned => exact .pure hcompletion

theorem loop {condition condition' : Run Bool} {body body' : Run Completion}
    (hcondition : ∀ {T'}, T <+: T' → Keeps S T' frame Anything condition condition')
    (hbody : ∀ {T'}, T <+: T' → Keeps S T' frame (Completes S) body body') (rounds : Nat) :
    Keeps S T frame (Completes S) (Run.loop condition body rounds)
      (Run.loop condition' body' rounds) := by
  induction rounds generalizing T with
  | zero => exact .throw _
  | succ rounds ih =>
    refine (hcondition List.prefix_rfl).bind fun {T' truth} hT _ => ?_
    cases truth with
    | false => exact .pure (by simp [Completes])
    | true =>
      refine (hbody hT).bind fun {T'' completion} hT' hcompletion => ?_
      cases completion with
      | none =>
        exact ih (fun hT'' => hcondition ((hT.trans hT').trans hT''))
          fun hT'' => hbody ((hT.trans hT').trans hT'')
      | some returned => exact .pure hcompletion

/-- A call runs the body of a function where the function was declared, not where it is called. -/
theorem call {run run' : Stmt Site → Run Completion}
    (hrun : ∀ {T' frame s around}, T <+: T' → T'[frame]? = some around.path → s.Placed S around →
      Keeps S T' frame (Completes S) (run s) (run' s))
    (line : Int) {callee : Value} (hcallee : callee.Typed S T) {arguments : List Value}
    (harguments : AreTyped S T arguments) :
    Keeps S T frame (IsTyped S) (Run.call run line callee arguments)
      (Run.call run' line callee arguments) := by
  unfold Run.call
  cases callee.arity? with
  | none => exact fail _ _
  | some arity =>
    by_cases hlength : arguments.length = arity
    · simp only [hlength, if_true]
      cases callee with
      | closure function =>
        obtain ⟨around, hframe, hbound⟩ := hcallee
        let scope : Scope := ⟨function.site, function.params, function.body⟩
        have hparams : ∀ param ∈ function.params, param.lexeme ∈ scope.names :=
          fun param hparam => List.mem_append_left _ (List.mem_map_of_mem hparam)
        refine (enter hframe scope).bind fun {T' id} hT hid => ?_
        refine (bindParameters hid hparams fun v hv => (harguments v hv).mono hT).bind
          fun {T''} _ hT' _ => ?_
        have hbody : Stmt.AllPlaced S
            (around.inBody function.site function.params function.body) function.body :=
          ⟨hbound, fun name hname => List.mem_append_right _ hname⟩
        refine (within id (sequence (fun hT'' hpath hs =>
          hrun ((hT.trans hT').trans hT'') ?_ hs) rfl hbody)).bind
            fun {_ completion} _ hcompletion => .pure ?_
        · rw [hpath]
          exact Typing.getElem?_mono (hT'.trans hT'') hid
        · cases completion with
          | none => trivial
          | some returned => exact hcompletion returned rfl
      | atom value => exact readClock
      | native function => exact readClock
    · simp only [hlength, if_false]
      exact fail _ _

end Keeps

/-- What a statement comes to that stands by itself: nil, unless it returns. -/
def Run.concluded : Completion → Run Value
  | none => return .nil
  | some returned => Run.fail .topLevelReturn returned.line

/-- A statement that stands by itself and is no expression is executed and concluded. -/
theorem Run.interpret_eq_concluded {s : Stmt Site} (hs : ∀ e, s ≠ .expression e) (rounds depth : Nat) :
    interpret rounds depth s = Access.byDistance.execute rounds depth s >>= concluded := by
  cases s with
  | expression e => exact absurd rfl (hs e)
  | _ => rfl

namespace Access
variable {S : Setting} {access : Access}

/-- The runs of the expressions and statements that are walked at most so deep. -/
structure KeepsTyped (S : Setting) (access : Access) (rounds depth : Nat) : Prop where
  evaluate : ∀ {T : Typing} {frame : FrameId} {around : Surroundings} {e : Expr Site},
    T[frame]? = some around.path → e.Placed S around →
      Keeps S T frame (Keeps.IsTyped S) (access.evaluate rounds depth e)
        (byDistance.evaluate rounds depth e)
  execute : ∀ {T : Typing} {frame : FrameId} {around : Surroundings} {s : Stmt Site},
    T[frame]? = some around.path → s.Placed S around →
      Keeps S T frame (Keeps.Completes S) (access.execute rounds depth s)
        (byDistance.execute rounds depth s)

namespace Follows
variable {T : Typing} {frame : FrameId} {v : Visit}

theorem keeps_read (h : access.Follows S) (hv : S.Bound v)
    (hframe : T[frame]? = some v.around.path) :
    Keeps S T frame (Keeps.IsTyped S) (access.read v.site v.name) (Run.read v.site v.name) := by
  intro m hm hcurrent
  rw [h.read hm hv (by rw [hcurrent, hframe])]
  exact Keeps.read v.site v.name m hm hcurrent

theorem keeps_write (h : access.Follows S) (hv : S.Bound v)
    (hframe : T[frame]? = some v.around.path) {value : Value} (hvalue : value.Typed S T) :
    Keeps S T frame (Keeps.IsTyped S) (access.write v.site v.name value)
      (Run.write v.site v.name value) := by
  intro m hm hcurrent
  rw [h.write hm hv (by rw [hcurrent, hframe]) hvalue]
  exact Keeps.write v.site v.name hvalue m hm hcurrent

end Follows

namespace KeepsTyped
variable {T : Typing} {frame : FrameId} {around : Surroundings} {rounds depth : Nat}

theorem evaluate_succ (h : access.Follows S) (ih : KeepsTyped S access rounds depth)
    {e : Expr Site} (hframe : T[frame]? = some around.path) (he : e.Placed S around) :
    Keeps S T frame (Keeps.IsTyped S) (access.evaluate rounds (depth + 1) e)
      (byDistance.evaluate rounds (depth + 1) e) := by
  cases e with
  | literal value => exact .pure trivial
  | grouping inner => exact ih.evaluate hframe he
  | unary operator operand =>
    have hoperand : operand.Placed S around := he
    exact (ih.evaluate hframe hoperand).bind fun _ _ => Keeps.unary operator _
  | binary left operator right =>
    have hleft : left.Placed S around := fun v hv => he v (List.mem_append_left _ hv)
    have hright : right.Placed S around := fun v hv => he v (List.mem_append_right _ hv)
    refine (ih.evaluate hframe hleft).bind fun hT _ => ?_
    refine (ih.evaluate (Typing.getElem?_mono hT hframe) hright).bind fun _ _ => ?_
    exact Keeps.binary operator _ _
  | logical left operator right =>
    have hleft : left.Placed S around := fun v hv => he v (List.mem_append_left _ hv)
    have hright : right.Placed S around := fun v hv => he v (List.mem_append_right _ hv)
    refine (ih.evaluate hframe hleft).bind fun {T' value} hT hvalue => ?_
    by_cases hdecides : Run.decides operator value = true
    · simp only [hdecides, if_true]
      exact .pure hvalue
    · simp only [hdecides]
      exact ih.evaluate (Typing.getElem?_mono hT hframe) hright
  | «variable» site name =>
    exact h.keeps_read (he ⟨site, .read, name, around⟩ List.mem_cons_self) hframe
  | assignment site name value =>
    have hvalue : value.Placed S around := fun v hv => he v (List.mem_append_left _ hv)
    refine (ih.evaluate hframe hvalue).bind fun hT htyped => ?_
    have hbound := he ⟨site, .assignment, name, around⟩
      (List.mem_append_right _ List.mem_cons_self)
    exact h.keeps_write hbound (Typing.getElem?_mono hT hframe) htyped
  | call callee paren arguments =>
    have hcallee : callee.Placed S around := fun v hv => he v (List.mem_append_left _ hv)
    have harguments : ∀ e ∈ arguments, e.Placed S around := fun e hmem v hv =>
      he v (List.mem_append_right _ (Expr.mem_allVisits hmem hv))
    refine (ih.evaluate hframe hcallee).bind fun {T' function} hT hfunction => ?_
    refine (Keeps.mapM fun hT' hmem => ih.evaluate
      (Typing.getElem?_mono (hT.trans hT') hframe) (harguments _ hmem)).bind
        fun {T'' values} hT' hvalues => ?_
    exact Keeps.call (fun _ hother hs => ih.execute hother hs) _ (hfunction.mono hT') hvalues
  | «foreign» what => exact .fault _

theorem execute_succ (ih : KeepsTyped S access rounds depth)
    {s : Stmt Site} (hframe : T[frame]? = some around.path) (hs : s.Placed S around) :
    Keeps S T frame (Keeps.Completes S) (access.execute rounds (depth + 1) s)
      (byDistance.execute rounds (depth + 1) s) := by
  have hnone : ∀ T' : Typing, Keeps.Completes S T' none := by simp [Keeps.Completes]
  cases s with
  | expression value => exact (ih.evaluate hframe hs.1).bind fun _ _ => .pure (hnone _)
  | print value =>
    refine (ih.evaluate hframe hs.1).bind fun _ _ => ?_
    refine Keeps.bind (Keeps.modify_of ?_ ?_ ?_) fun _ _ => .pure (hnone _) <;> exact fun _ => rfl
  | assert keyword condition =>
    refine (ih.evaluate hframe hs.1).bind fun {T' value} hT _ => ?_
    by_cases htruthy : value.isTruthy = true
    · simp only [htruthy, if_true]
      exact .pure (hnone _)
    · simp only [htruthy]
      exact .fail _ _
  | «variable» name initializer =>
    have hname : S.Declarable around.path name.lexeme := hs.2 _ List.mem_cons_self
    have hdefine : ∀ {T' value}, T <+: T' → value.Typed S T' →
        Keeps S T' frame (Keeps.Completes S)
          (do Run.define (← get).current name.lexeme value name.line; return none)
          (do Run.define (← get).current name.lexeme value name.line; return none) := by
      intro T' value hT hvalue
      refine .get_bind fun m hm hcurrent => ?_
      subst hcurrent
      exact (Keeps.define (Typing.getElem?_mono hT hframe) hname hvalue _).bind
        (fun _ _ => .pure (hnone _)) m hm rfl
    cases initializer with
    | none => exact hdefine List.prefix_rfl trivial
    | some initializer =>
      have hinitializer : initializer.Placed S (around.declare [name.lexeme]) := hs.1
      have hdeclared : T[frame]? = some (around.declare [name.lexeme]).path := hframe
      exact (ih.evaluate hdeclared hinitializer).bind hdefine
  | block site body =>
    refine .get_bind fun m hm hcurrent => ?_
    subst hcurrent
    refine (Keeps.enter hframe ⟨site, [], body⟩).bind (fun {T' id} hT hid => ?_) m hm rfl
    have hbody : Stmt.AllPlaced S (around.inBlock site body) body :=
      ⟨hs.1, fun name hname => hname⟩
    refine Keeps.within id (Keeps.sequence (fun hT' hpath hs => ih.execute ?_ hs) rfl hbody)
    rw [hpath]
    exact Typing.getElem?_mono hT' hid
  | conditional condition yes no =>
    have hcondition : condition.Placed S around := by
      cases no with
      | none => exact fun v hv => hs.1 v (List.mem_append_left _ hv)
      | some no => exact fun v hv => hs.1 v (List.mem_append_left _ (List.mem_append_left _ hv))
    have hyes : yes.Placed S around := by
      cases no with
      | none => exact ⟨fun v hv => hs.1 v (List.mem_append_right _ hv), hs.2⟩
      | some no =>
        exact ⟨fun v hv => hs.1 v (List.mem_append_left _ (List.mem_append_right _ hv)),
          fun name hn => hs.2 name (List.mem_append_left _ hn)⟩
    refine (ih.evaluate hframe hcondition).bind fun {T' value} hT _ => ?_
    by_cases htruthy : value.isTruthy = true
    · simp only [htruthy, if_true]
      exact ih.execute (Typing.getElem?_mono hT hframe) hyes
    · simp only [htruthy]
      cases no with
      | none => exact .pure (hnone _)
      | some no =>
        have hno : no.Placed S (around.declare yes.declared) :=
          ⟨fun v hv => hs.1 v (List.mem_append_right _ hv),
            fun name hn => hs.2 name (List.mem_append_right _ hn)⟩
        have hdeclared : T'[frame]? = some (around.declare yes.declared).path :=
          Typing.getElem?_mono hT hframe
        exact ih.execute hdeclared hno
  | loop condition body =>
    have hcondition : condition.Placed S around := fun v hv => hs.1 v (List.mem_append_left _ hv)
    have hbody : body.Placed S around := ⟨fun v hv => hs.1 v (List.mem_append_right _ hv), hs.2⟩
    refine Keeps.loop (fun hT => ?_) (fun hT => ?_) rounds
    · exact (ih.evaluate (Typing.getElem?_mono hT hframe) hcondition).map fun _ _ => trivial
    · exact ih.execute (Typing.getElem?_mono hT hframe) hbody
  | function site name params body =>
    have hname : S.Declarable around.path name.lexeme := hs.2 _ List.mem_cons_self
    refine .get_bind fun m hm hcurrent => ?_
    subst hcurrent
    have hclosure : (Value.closure ⟨site, name, params, body, m.current⟩).Typed S T :=
      ⟨around.declare [name.lexeme], hframe, hs.1⟩
    exact (Keeps.define hframe hname hclosure _).bind (fun _ _ => .pure (hnone _)) m hm rfl
  | «return» keyword value =>
    have hreturned : ∀ {T' value}, value.Typed S T' →
        Keeps.Completes S T' (some ⟨value, keyword.line⟩) := by
      rintro T' value hvalue _ ⟨rfl⟩
      exact hvalue
    cases value with
    | none => exact .pure (hreturned trivial)
    | some value =>
      have hvalue : value.Placed S around := hs.1
      exact (ih.evaluate hframe hvalue).bind fun _ htyped => .pure (hreturned htyped)
  | endMarker =>
    refine Keeps.bind (Keeps.modify_of ?_ ?_ ?_) fun _ _ => .pure (hnone _) <;> exact fun _ => rfl
  | «foreign» what => exact .fault _

end KeepsTyped

/-- Ways of access that follow the distances cannot be told apart from them, and all runs keep
machines typed. -/
theorem Follows.keepsTyped (h : access.Follows S) (rounds depth : Nat) :
    KeepsTyped S access rounds depth := by
  induction depth with
  | zero => exact ⟨fun _ _ => .fail _ _, fun _ _ => .fail _ _⟩
  | succ depth ih => exact ⟨ih.evaluate_succ h, ih.execute_succ⟩

/-- The access by distance follows itself. -/
theorem Follows.byDistance (S : Setting) : Access.byDistance.Follows S :=
  ⟨fun _ _ _ => rfl, fun _ _ _ _ => rfl⟩

/-- The same holds of a statement that stands by itself. -/
theorem Follows.keeps_interpret (h : access.Follows S) {T : Typing} {frame : FrameId}
    {around : Surroundings} {s : Stmt Site} (hframe : T[frame]? = some around.path)
    (hs : s.Placed S around) (rounds depth : Nat) :
    Keeps S T frame (Keeps.IsTyped S) (access.interpret rounds depth s)
      (Access.byDistance.interpret rounds depth s) := by
  have hkeeps := h.keepsTyped rounds depth
  have hexecute : Keeps S T frame (Keeps.IsTyped S)
      (access.execute rounds depth s >>= Run.concluded)
      (Access.byDistance.execute rounds depth s >>= Run.concluded) := by
    refine (hkeeps.execute hframe hs).bind fun {T' completion} _ _ => ?_
    cases completion with
    | none => exact .pure trivial
    | some returned => exact .fail _ _
  cases s with
  | expression value => exact hkeeps.evaluate hframe hs.1
  | _ => exact hexecute

end Access

end Lox
