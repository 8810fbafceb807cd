import Lox.Proofs.Respelling.Carrying
import Lox.Proofs.Scoping.ChainLookup

/-!
# Steps in another spelling

What the machine does at single nodes of a tree carries a translation along: references find the
same variables, operators give the same atoms, and calls run the same bodies.
-/
namespace Lox
open Outcome

/-- How a statement ends, in another spelling. -/
def Completion.respell (ρ : Respelling Site) (completion : Completion) : Completion :=
  completion.map fun returned => ⟨returned.value.respell ρ, ρ.line returned.line⟩

/-- A return hands on a value of a ready machine. -/
def Completion.Ready (S : Setting) (F : Forms Site) (T : Typing) (completion : Completion) : Prop :=
  ∀ returned ∈ completion, returned.value.Ready S F T

namespace Translation.Carries
variable {Φ : Translation} {S : Setting} {F : Forms Site} {T : Typing} {frame : FrameId}
  {name : String} {value : Value}

/-- References to globals. -/
theorem lookup_globals (h : Φ.Faithful S F) (hname : F.name name) (line : Option Int) :
    Φ.Carries S F T frame (Value.Ready S F) (Value.respell Φ.toRespelling)
      (Run.lookup Machine.globals name line)
      (Run.lookup Machine.globals (Φ.declared none name) (line.map Φ.line)) := by
  refine get_bind fun m hm => ?_
  have hglobals := hm.typed.globals
  have hbinds := h.binds_eq hm hglobals hname
  rw [List.head?_nil, Option.map_none] at hbinds
  simp only [Store.owner?, machine_store, Store.chain_respell, hm.typed.chain_globals,
    List.find?_cons, List.find?_nil] at hbinds ⊢
  rw [hbinds]
  cases m.store.binds Machine.globals name with
  | true => exact readIn h hglobals hname line m hm
  | false => exact carried_error hm (.error (.notDefined name) line none)

theorem assign_globals (h : Φ.Faithful S F) (hname : F.name name) (hvalue : value.Ready S F T)
    (line : Option Int) :
    Φ.Carries S F T frame (Value.Ready S F) (Value.respell Φ.toRespelling)
      (Run.assign Machine.globals name value line)
      (Run.assign Machine.globals (Φ.declared none name) (value.respell Φ.toRespelling)
        (line.map Φ.line)) := by
  refine get_bind fun m hm => ?_
  have hglobals := hm.typed.globals
  have hbinds := h.binds_eq hm hglobals hname
  rw [List.head?_nil, Option.map_none] at hbinds
  simp only [Store.owner?, machine_store, Store.chain_respell, hm.typed.chain_globals,
    List.find?_cons, List.find?_nil] at hbinds ⊢
  rw [hbinds]
  cases m.store.binds Machine.globals name with
  | true => exact writeIn h hglobals hname hvalue line m hm
  | false => exact carried_error hm (.error (.notDeclared name) line none)

/-- The frame that a bound reference finds at its distance, and the scope it stems from. -/
theorem exists_owner {m : Machine} (hm : m.Ready S F T frame) {v : Visit} (hv : S.Bound v)
    (hframe : T[frame]? = some v.around.path) {distance : Nat}
    (hfind : m.distances.find? v.site = some distance) :
    ∃ owner path, m.store.ancestor? m.current distance = some owner ∧ T[owner]? = some path ∧
      path.head?.map Scope.site = v.home := by
  rw [hm.typed.distances, hv.2] at hfind
  have hlt : distance < v.around.path.length := by
    rw [← (S.nested hv.1).length_eq]
    exact lt_length_of_findScope hfind
  have hcurrent : T[m.current]? = some v.around.path := by rw [hm.current, hframe]
  obtain ⟨owner, howner, hpath⟩ :=
    (hm.typed.fits_chain hcurrent).getElem? (Nat.le_of_lt hlt)
  refine ⟨owner, v.around.path.drop distance, howner, hpath, ?_⟩
  rw [Visit.home, hfind, List.head?_drop]
  rfl

/-- Reading a variable finds the same variable in both spellings. -/
theorem read (h : Φ.Faithful S F) {v : Visit} (hv : S.Bound v)
    (hframe : T[frame]? = some v.around.path) (hname : F.name v.name.lexeme) :
    Φ.Carries S F T frame (Value.Ready S F) (Value.respell Φ.toRespelling)
      (Run.read v.site v.name) (Run.read v.site (Φ.referring v.site v.name)) := by
  refine get_bind fun m hm => ?_
  have hdistance : (Φ.machine m).distances.find? v.site = m.distances.find? v.site := by
    rw [machine_distances, hm.typed.distances, h.distances hv]
  rw [hdistance, Respelling.referring_lexeme, h.references hv.1]
  cases hfind : m.distances.find? v.site with
  | some distance =>
    obtain ⟨owner, path, hancestor, hpath, hhome⟩ := exists_owner hm hv hframe hfind
    have hother : (Φ.machine m).store.ancestor? (Φ.machine m).current distance = some owner := by
      rw [Store.ancestor?, machine_store, Store.chain_respell]
      exact hancestor
    simp only
    rw [Run.lookupAt_apply hancestor, Run.lookupAt_apply hother, ← hhome]
    exact readIn h hpath hname v.name.line m hm
  | none =>
    rw [hm.typed.distances, hv.2] at hfind
    rw [Visit.home, hfind]
    exact lookup_globals h hname v.name.line m hm

/-- Assigning to a variable changes the same variable in both spellings. -/
theorem write (h : Φ.Faithful S F) {v : Visit} (hv : S.Bound v)
    (hframe : T[frame]? = some v.around.path) (hname : F.name v.name.lexeme)
    (hvalue : value.Ready S F T) :
    Φ.Carries S F T frame (Value.Ready S F) (Value.respell Φ.toRespelling)
      (Run.write v.site v.name value)
      (Run.write v.site (Φ.referring v.site v.name) (value.respell Φ.toRespelling)) := by
  refine get_bind fun m hm => ?_
  have hdistance : (Φ.machine m).distances.find? v.site = m.distances.find? v.site := by
    rw [machine_distances, hm.typed.distances, h.distances hv]
  rw [hdistance, Respelling.referring_lexeme, h.references hv.1]
  cases hfind : m.distances.find? v.site with
  | some distance =>
    obtain ⟨owner, path, hancestor, hpath, hhome⟩ := exists_owner hm hv hframe hfind
    have hother : (Φ.machine m).store.ancestor? (Φ.machine m).current distance = some owner := by
      rw [Store.ancestor?, machine_store, Store.chain_respell]
      exact hancestor
    simp only [get_bind_apply]
    rw [Run.assignAt_apply hancestor, Run.assignAt_apply hother, ← hhome]
    exact writeIn h hpath hname hvalue v.name.line m hm
  | none =>
    rw [hm.typed.distances, hv.2] at hfind
    rw [Visit.home, hfind]
    exact assign_globals h hname hvalue v.name.line m hm

/-- Making a frame for a scope inside the scopes of another frame. -/
theorem enter {outer : FrameId} {path : List Scope} (houter : T[outer]? = some path)
    (scope : Scope) :
    Φ.Carries S F T frame (fun T' id => T'[id]? = some (scope :: path)) (fun id => id)
      (Run.enter outer (some scope.site)) (Run.enter outer (some scope.site)) := by
  refine get_bind fun m hm => ?_
  refine ⟨⟨T ++ [scope :: path], List.prefix_append .., ?_, ?_⟩, ?_⟩
  · exact ⟨hm.typed.push houter scope, hm.within.push _ _, hm.current⟩
  · show (T ++ [scope :: path])[m.store.next]? = some (scope :: path)
    rw [← hm.typed.length, List.getElem?_concat_length]
  · simp only [modify_bind_apply, Store.chain_respell, Store.next_respell, machine,
      Store.respell_push]
    rfl

/-- Running something with another current frame. -/
theorem within {α β : Type} {post : Typing → α → Prop} {f : α → β} {x : Run α} {y : Run β}
    (id : FrameId) (hx : Φ.Carries S F T id post f x y) :
    Φ.Carries S F T frame post f (Run.within id x) (Run.within id y) := by
  intro m hm
  have hinside := hx { m with current := id }
    ⟨hm.typed.congr rfl rfl, hm.within, rfl⟩
  simp only [Run.within]
  have hmachine : { Φ.machine m with current := id } = Φ.machine { m with current := id } := rfl
  rw [hmachine]
  cases hrun : x { m with current := id } with
  | ok a m' =>
    rw [hrun] at hinside
    obtain ⟨⟨T', hT, hm', ha⟩, heq⟩ := hinside
    rw [heq]
    exact ⟨⟨T', hT, ⟨hm'.typed.congr rfl rfl, hm'.within, hm.current⟩, ha⟩, rfl⟩
  | error stop m' =>
    rw [hrun] at hinside
    obtain ⟨⟨T', hT, hm'⟩, stop', hstop, heq⟩ := hinside
    rw [heq]
    exact ⟨⟨T', hT, ⟨hm'.typed.congr rfl rfl, hm'.within, hm.current⟩⟩, stop', hstop, rfl⟩

/-- A unary operator gives the same atom, or the same error, in every spelling. -/
theorem unary (operator : Token) (operand : Value) :
    Φ.Carries S F T frame (Value.Ready S F) (Value.respell Φ.toRespelling)
      (Run.unary operator operand)
      (Run.unary (Φ.token operator) (operand.respell Φ.toRespelling)) := by
  by_cases hbang : operator.kind = .bang
  · simp only [Run.unary, Respelling.token_kind, hbang, Value.isTruthy_respell]
    exact .pure (Value.ready_atom _)
  · unfold Run.unary
    cases operand with
    | atom a =>
      cases a <;> simp only [Respelling.token_kind, Value.respell_atom] <;>
        first
          | exact .pure (Value.ready_atom _)
          | exact fail _
    | closure f =>
      simp only [Respelling.token_kind, Value.respell]
      exact fail _
    | native f =>
      simp only [Respelling.token_kind, Value.respell]
      exact fail _

theorem add (line : Int) (left right : Value) :
    Φ.Carries S F T frame (Value.Ready S F) (Value.respell Φ.toRespelling)
      (Run.add line left right)
      (Run.add (Φ.line line) (left.respell Φ.toRespelling) (right.respell Φ.toRespelling)) := by
  cases left with
  | closure f => exact fail _
  | native f => exact fail _
  | atom a =>
    cases a with
    | nil => exact fail _
    | bool b => exact fail _
    | number x =>
      cases right with
      | atom b =>
        cases b with
        | number y => exact .pure (Value.ready_atom _)
        | _ => exact fail _
      | closure f => exact fail _
      | native f => exact fail _
    | string x =>
      cases right with
      | atom b =>
        cases b with
        | string y => exact .pure (Value.ready_atom _)
        | _ => exact fail _
      | closure f => exact fail _
      | native f => exact fail _

/-- Calculating ends in a fault only where there is an operator without a meaning. -/
theorem calculate {operator : Token} (h : F.faults ∨ (arithmetic? operator.kind).isSome)
    (left right : Value) :
    Φ.Carries S F T frame (Value.Ready S F) (Value.respell Φ.toRespelling)
      (Run.calculate operator left right)
      (Run.calculate (Φ.token operator) (left.respell Φ.toRespelling)
        (right.respell Φ.toRespelling)) := by
  cases left with
  | closure f => exact fail _
  | native f => exact fail _
  | atom a =>
    cases a with
    | number x =>
      cases right with
      | atom b =>
        cases b with
        | number y =>
          simp only [Run.calculate, Value.respell_atom, Respelling.token_kind]
          cases hoperation : arithmetic? operator.kind with
          | none => exact fault (by simpa [hoperation] using h) _
          | some operation => exact .pure (Value.ready_atom _)
        | _ => exact fail _
      | closure f => exact fail _
      | native f => exact fail _
    | _ => exact fail _

/-- A binary operator gives the same atom, or the same error, in every spelling. -/
theorem binary {operator : Token} (h : F.faults ∨ operator.kind.Calculates) (left right : Value) :
    Φ.Carries S F T frame (Value.Ready S F) (Value.respell Φ.toRespelling)
      (Run.binary operator left right)
      (Run.binary (Φ.token operator) (left.respell Φ.toRespelling)
        (right.respell Φ.toRespelling)) := by
  unfold Run.binary
  rw [Respelling.token_kind]
  by_cases heq : operator.kind = .equalEqual
  · simp only [heq, Value.equals_respell]
    exact .pure (Value.ready_atom _)
  by_cases hne : operator.kind = .bangEqual
  · simp only [hne, Value.equals_respell]
    exact .pure (Value.ready_atom _)
  by_cases hplus : operator.kind = .plus
  · simp only [hplus]
    exact add _ _ _
  simp only
  exact calculate (by simpa [Kind.Calculates, heq, hne, hplus] using h) _ _

theorem readClock :
    Φ.Carries S F T frame (Value.Ready S F) (Value.respell Φ.toRespelling) Run.readClock
      Run.readClock :=
  get_bind fun _ hm => ⟨⟨T, List.prefix_rfl, hm.congr rfl rfl rfl, Value.ready_atom _⟩, rfl⟩

theorem print (line : String) :
    Φ.Carries S F T frame Anything (fun u => u) (Run.print line) (Run.print line) :=
  change (fun _ => rfl) fun _ hm => hm.congr rfl rfl rfl

/-- Executing an end marker. -/
theorem finish (h : Φ.done true = true) :
    Φ.Carries S F T frame Anything (fun u => u) (modify fun m : Machine => { m with done := true })
      (modify fun m : Machine => { m with done := true }) :=
  change (fun _ => by simp only [machine, h]) fun _ hm => hm.congr rfl rfl rfl

/-- Declaring a function, whose name every spelling leaves as it is. -/
theorem define_function (h : Φ.Faithful S F) {id : FrameId} {around : Surroundings}
    (hid : T[id]? = some around.path) (hdeclarable : S.Declarable around.path name)
    (hname : F.name name) (hfunction : F.function around.site name) (hvalue : value.Ready S F T)
    (line : Option Int) :
    Φ.Carries S F T frame Anything (fun u => u) (Run.define id name value line)
      (Run.define id name (value.respell Φ.toRespelling) (line.map Φ.line)) := by
  have hdefine : Φ.Carries S F T frame Anything (fun u => u) (Run.define id name value line)
      (Run.define id (Φ.declared around.site name) (value.respell Φ.toRespelling)
        (line.map Φ.line)) :=
    define h hid hdeclarable hname hvalue line
  rw [h.function hfunction] at hdefine
  exact hdefine

/-- Values of ready machines, such as the arguments of a call. -/
def AllReady (S : Setting) (F : Forms Site) (T : Typing) (values : List Value) : Prop :=
  ∀ value ∈ values, value.Ready S F T

theorem mapM {γ : Type} {f g : γ → Run Value} {k : γ → γ} {cs : List γ}
    (hf : ∀ {T' c}, T <+: T' → c ∈ cs →
      Φ.Carries S F T' frame (Value.Ready S F) (Value.respell Φ.toRespelling) (f c) (g (k c))) :
    Φ.Carries S F T frame (AllReady S F) (List.map (Value.respell Φ.toRespelling)) (cs.mapM f)
      ((cs.map k).mapM g) := by
  induction cs generalizing T with
  | nil => exact .pure (by simp [AllReady])
  | cons c cs ih =>
    rw [List.map_cons, List.mapM_cons, List.mapM_cons]
    refine (hf List.prefix_rfl List.mem_cons_self).bind fun {T' value} hT hvalue => ?_
    refine (ih fun hT' hc => hf (hT.trans hT') (List.mem_cons_of_mem _ hc)).bind
      fun {T'' values} hT' hvalues => .pure fun w hw => ?_
    rcases List.mem_cons.mp hw with rfl | hw
    · exact hvalue.mono hT'
    · exact hvalues w hw

theorem bindParameters (h : Φ.Faithful S F) {id : FrameId} {scope : Scope} {path : List Scope}
    {params : List Token} {arguments : List Value} (hid : T[id]? = some (scope :: path))
    (hparams : ∀ param ∈ params, param.lexeme ∈ scope.names ∧ F.name param.lexeme)
    (harguments : AllReady S F T arguments) :
    Φ.Carries S F T frame Anything (fun u => u) (Run.bindParameters id params arguments)
      (Run.bindParameters id (params.map (Φ.declaring (some scope.site)))
        (arguments.map (Value.respell Φ.toRespelling))) := by
  induction params generalizing T arguments with
  | nil => exact .pure trivial
  | cons param params ih =>
    cases arguments with
    | nil => exact .pure trivial
    | cons argument arguments =>
      obtain ⟨hdeclared, hname⟩ := hparams param List.mem_cons_self
      have hdeclarable : S.Declarable (scope :: path) param.lexeme := hdeclared
      refine (define h hid hdeclarable hname (harguments argument List.mem_cons_self) _).bind
        fun hT _ => ?_
      refine ih (Typing.getElem?_mono hT hid)
        (fun other hother => hparams other (List.mem_cons_of_mem _ hother)) fun value hvalue => ?_
      exact (harguments value (List.mem_cons_of_mem _ hvalue)).mono hT

theorem sequence {run run' : Stmt Site → Run Completion} {path : List Scope}
    {around : Surroundings} {scope : Option Site} {ending : Prop}
    (hrun : ∀ {T' s around}, T <+: T' → around.path = path → s.Placed S around →
      s.Within F ending scope →
        Φ.Carries S F T' frame (Completion.Ready S F) (Completion.respell Φ.toRespelling) (run s)
          (run' (s.respell Φ.toRespelling scope)))
    {ss : List (Stmt Site)} (hpath : around.path = path) (hss : Stmt.AllPlaced S around ss)
    (hwithin : Stmt.AllWithin F ending scope ss) :
    Φ.Carries S F T frame (Completion.Ready S F) (Completion.respell Φ.toRespelling)
      (Run.sequence run ss) (Run.sequence run' (Stmt.respellAll Φ.toRespelling scope ss)) := by
  induction ss generalizing T around with
  | nil => exact .pure (by simp [Completion.Ready])
  | cons s ss ih =>
    refine (hrun List.prefix_rfl hpath hss.head hwithin.1).bind fun {T' completion} hT hready => ?_
    cases completion with
    | none =>
      have hpath' : (around.declare s.declared).path = path := hpath
      exact ih (fun hT' => hrun (hT.trans hT')) hpath' hss.tail hwithin.2
    | some returned => exact .pure hready

theorem loop {condition condition' : Run Bool} {body body' : Run Completion}
    (hcondition : ∀ {T'}, T <+: T' →
      Φ.Carries S F T' frame Anything (fun truth => truth) condition condition')
    (hbody : ∀ {T'}, T <+: T' → Φ.Carries S F T' frame (Completion.Ready S F)
      (Completion.respell Φ.toRespelling) body body') (rounds : Nat) :
    Φ.Carries S F T frame (Completion.Ready S F) (Completion.respell Φ.toRespelling)
      (Run.loop condition body rounds) (Run.loop condition' body' rounds) := by
  induction rounds generalizing T with
  | zero => exact .throw .unfinished
  | succ rounds ih =>
    refine (hcondition List.prefix_rfl).bind fun {T' truth} hT _ => ?_
    cases truth with
    | false => exact .pure (by simp [Completion.Ready])
    | true =>
      refine (hbody hT).bind fun {T'' completion} hT' hready => ?_
      cases completion with
      | none =>
        exact ih (fun hT'' => hcondition ((hT.trans hT').trans hT''))
          fun hT'' => hbody ((hT.trans hT').trans hT'')
      | some returned => exact .pure hready

/-- A call runs the body of a function in its scope, in which the other spelling is the
function's. -/
theorem call (h : Φ.Faithful S F) {run run' : Stmt Site → Run Completion}
    (hrun : ∀ {T' frame s around}, T <+: T' → T'[frame]? = some around.path → s.Placed S around →
      s.Within F False around.site →
        Φ.Carries S F T' frame (Completion.Ready S F) (Completion.respell Φ.toRespelling) (run s)
          (run' (s.respell Φ.toRespelling around.site)))
    (line : Int) {callee : Value} (hcallee : callee.Ready S F T) {arguments : List Value}
    (harguments : AllReady S F T arguments) :
    Φ.Carries S F T frame (Value.Ready S F) (Value.respell Φ.toRespelling)
      (Run.call run line callee arguments)
      (Run.call run' (Φ.line line) (callee.respell Φ.toRespelling)
        (arguments.map (Value.respell Φ.toRespelling))) := by
  unfold Run.call
  rw [Value.arity?_respell, List.length_map]
  cases callee.arity? with
  | none => exact fail _
  | some arity =>
    by_cases hlength : arguments.length = arity
    · simp only [hlength, if_true]
      cases callee with
      | closure function =>
        obtain ⟨⟨around, hframe, hbound⟩, hnames, hwithin⟩ := hcallee
        let scope : Scope := ⟨function.site, function.params, function.body⟩
        have hparams : ∀ param ∈ function.params,
            param.lexeme ∈ scope.names ∧ F.name param.lexeme := fun param hparam =>
          ⟨List.mem_append_left _ (List.mem_map_of_mem hparam), hnames param hparam⟩
        refine (enter hframe scope).bind fun {T' id} hT hid => ?_
        refine (bindParameters h hid hparams fun v hv => (harguments v hv).mono hT).bind
          fun {T''} _ hT' _ => ?_
        have hbody : Stmt.AllPlaced S
            (around.inBody function.site function.params function.body) function.body :=
          ⟨hbound, fun name hname => List.mem_append_right _ hname⟩
        refine (within id (sequence (fun {_ s inner} hT'' hpath hs hforms => ?_) rfl hbody
          hwithin)).bind fun {_ completion} _ hready => ?_
        · have hsite : inner.site = some function.site := by
            rw [Surroundings.site, hpath]
            rfl
          have hinner : T''[id]? = some inner.path := by
            rw [hpath]
            exact Typing.getElem?_mono hT' hid
          rw [← hsite] at hforms ⊢
          exact hrun ((hT.trans hT').trans hT'') (Typing.getElem?_mono hT'' hinner) hs hforms
        · cases completion with
          | none => exact .pure (Value.ready_atom _)
          | some returned => exact .pure (hready returned rfl)
      | atom value => exact readClock
      | native function => exact readClock
    · simp only [hlength, if_false]
      exact fail _

end Translation.Carries

end Lox
