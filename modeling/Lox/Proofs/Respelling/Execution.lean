import Lox.Proofs.Respelling.Steps

/-!
# Runs in another spelling

By induction on the depth of execution, every expression and every statement carries a translation
along. The translation may change whether the end of the input has been executed only where no end
marker occurs.
-/
namespace Lox
open Outcome

namespace Translation
variable {Φ : Translation} {S : Setting} {F : Forms Site}

/-- The runs of the expressions and statements that are walked at most so deep. -/
structure CarriesAll (Φ : Translation) (S : Setting) (F : Forms Site) (rounds depth : Nat) :
    Prop where
  evaluate : ∀ {T : Typing} {frame : FrameId} {around : Surroundings} {e : Expr Site},
    T[frame]? = some around.path → e.Placed S around → e.Within F →
      Φ.Carries S F T frame (Value.Ready S F) (Value.respell Φ.toRespelling)
        (Run.evaluate rounds depth e) (Run.evaluate rounds depth (e.respell Φ.toRespelling))
  execute : ∀ {T : Typing} {frame : FrameId} {around : Surroundings} {ending : Prop}
    {s : Stmt Site}, (ending → Φ.done true = true) → T[frame]? = some around.path →
      s.Placed S around → s.Within F ending around.site →
        Φ.Carries S F T frame (Completion.Ready S F) (Completion.respell Φ.toRespelling)
          (Access.byDistance.execute rounds depth s)
          (Access.byDistance.execute rounds depth (s.respell Φ.toRespelling around.site))

namespace CarriesAll
variable {T : Typing} {frame : FrameId} {around : Surroundings} {rounds depth : Nat}

theorem evaluate_succ (h : Φ.Faithful S F) (ih : Φ.CarriesAll S F rounds depth) {e : Expr Site}
    (hframe : T[frame]? = some around.path) (he : e.Placed S around) (hwithin : e.Within F) :
    Φ.Carries S F T frame (Value.Ready S F) (Value.respell Φ.toRespelling)
      (Run.evaluate rounds (depth + 1) e)
      (Run.evaluate rounds (depth + 1) (e.respell Φ.toRespelling)) := by
  cases e with
  | literal value => exact .pure (Value.ready_atom _)
  | grouping inner => exact ih.evaluate hframe he hwithin
  | unary operator operand =>
    have hoperand : operand.Placed S around := he
    exact (ih.evaluate hframe hoperand hwithin).bind fun _ _ => Carries.unary operator _
  | binary left operator right =>
    obtain ⟨hoperator, hl, hr⟩ := hwithin
    have hleft : left.Placed S around := fun v hv => he v (List.mem_append_left _ hv)
    have hright : right.Placed S around := fun v hv => he v (List.mem_append_right _ hv)
    refine (ih.evaluate hframe hleft hl).bind fun hT _ => ?_
    refine (ih.evaluate (Typing.getElem?_mono hT hframe) hright hr).bind fun _ _ => ?_
    exact Carries.binary hoperator _ _
  | logical left operator right =>
    have hleft : left.Placed S around := fun v hv => he v (List.mem_append_left _ hv)
    have hright : right.Placed S around := fun v hv => he v (List.mem_append_right _ hv)
    refine (ih.evaluate hframe hleft hwithin.1).bind fun {T' value} hT hvalue => ?_
    have hsame : Run.decides (Φ.token operator) (value.respell Φ.toRespelling) =
        Run.decides operator value := by
      simp only [Run.decides, Respelling.token_kind, Value.isTruthy_respell]
    rw [hsame]
    by_cases hdecides : Run.decides operator value = true
    · simp only [hdecides, if_true]
      exact .pure hvalue
    · simp only [hdecides]
      exact ih.evaluate (Typing.getElem?_mono hT hframe) hright hwithin.2
  | «variable» site name =>
    have hbound := he ⟨site, .read, name, around⟩ List.mem_cons_self
    exact Carries.read h hbound hframe hwithin
  | assignment site name value =>
    have hvalue : value.Placed S around := fun v hv => he v (List.mem_append_left _ hv)
    refine (ih.evaluate hframe hvalue hwithin.2).bind fun hT hready => ?_
    have hbound := he ⟨site, .assignment, name, around⟩
      (List.mem_append_right _ List.mem_cons_self)
    exact Carries.write h hbound (Typing.getElem?_mono hT hframe) hwithin.1 hready
  | call callee paren arguments =>
    have hcallee : callee.Placed S around := fun v hv => he v (List.mem_append_left _ hv)
    have harguments : ∀ e ∈ arguments, e.Placed S around := fun e hmem v hv =>
      he v (List.mem_append_right _ (Expr.mem_allVisits hmem hv))
    have hforms := Expr.allWithin_iff.mp hwithin.2
    have hnone : False → Φ.done true = true := False.elim
    rw [Expr.respell, Expr.respellAll_eq_map]
    refine (ih.evaluate hframe hcallee hwithin.1).bind fun {T' function} hT hfunction => ?_
    refine (Carries.mapM fun hT' hmem => ih.evaluate
      (Typing.getElem?_mono (hT.trans hT') hframe) (harguments _ hmem) (hforms _ hmem)).bind
        fun {T'' values} hT' hvalues => ?_
    exact Carries.call h (fun _ hother hs hwithin => ih.execute hnone hother hs hwithin) _
      (hfunction.mono hT') hvalues
  | «foreign» what => exact .fault hwithin _

section Statements
variable {ending : Prop}

theorem completion_ready_none : Completion.Ready S F T none := by
  simp [Completion.Ready]

theorem completion_ready_returned {value : Value} {line : Int} (h : value.Ready S F T) :
    Completion.Ready S F T (some ⟨value, line⟩) := by
  rintro _ ⟨rfl⟩
  exact h

/-- The name of a variable is defined behind its initializer, which may have made new frames. -/
theorem execute_define (h : Φ.Faithful S F) {name : Token} {value : Value}
    (hframe : T[frame]? = some around.path) (hdeclarable : S.Declarable around.path name.lexeme)
    (hname : F.name name.lexeme) (hvalue : value.Ready S F T) :
    Φ.Carries S F T frame (Completion.Ready S F) (Completion.respell Φ.toRespelling)
      (do Run.define (← get).current name.lexeme value name.line; return none)
      (do
        let name := Φ.declaring around.site name
        Run.define (← get).current name.lexeme (value.respell Φ.toRespelling) name.line
        return none) := by
  refine .get_bind fun m hm => ?_
  obtain rfl := hm.current
  exact (Carries.define h hframe hdeclarable hname hvalue _).bind
    (fun _ _ => .pure completion_ready_none) m hm

theorem execute_variable (h : Φ.Faithful S F) (ih : Φ.CarriesAll S F rounds depth) {name : Token}
    {initializer : Option (Expr Site)} (hframe : T[frame]? = some around.path)
    (hs : (Stmt.variable name initializer).Placed S around)
    (hwithin : (Stmt.variable name initializer).Within F ending around.site) :
    Φ.Carries S F T frame (Completion.Ready S F) (Completion.respell Φ.toRespelling)
      (Access.byDistance.execute rounds (depth + 1) (.variable name initializer))
      (Access.byDistance.execute rounds (depth + 1)
        ((Stmt.variable name initializer).respell Φ.toRespelling around.site)) := by
  have hdeclarable : S.Declarable around.path name.lexeme := hs.2 _ List.mem_cons_self
  cases initializer with
  | none => exact execute_define h hframe hdeclarable hwithin (Value.ready_atom _)
  | some initializer =>
    have hinitializer : initializer.Placed S (around.declare [name.lexeme]) := hs.1
    have hdeclared : T[frame]? = some (around.declare [name.lexeme]).path := hframe
    exact (ih.evaluate hdeclared hinitializer hwithin.2).bind fun hT hvalue =>
      execute_define h (Typing.getElem?_mono hT hframe) hdeclarable hwithin.1 hvalue

theorem execute_block (ih : Φ.CarriesAll S F rounds depth) (hending : ending → Φ.done true = true)
    {site : Site} {body : List (Stmt Site)} (hframe : T[frame]? = some around.path)
    (hs : (Stmt.block site body).Placed S around)
    (hwithin : (Stmt.block site body).Within F ending around.site) :
    Φ.Carries S F T frame (Completion.Ready S F) (Completion.respell Φ.toRespelling)
      (Access.byDistance.execute rounds (depth + 1) (.block site body))
      (Access.byDistance.execute rounds (depth + 1)
        ((Stmt.block site body).respell Φ.toRespelling around.site)) := by
  refine .get_bind fun m hm => ?_
  obtain rfl := hm.current
  refine (Carries.enter hframe ⟨site, [], body⟩).bind (fun {T' id} hT hid => ?_) m hm
  have hbody : Stmt.AllPlaced S (around.inBlock site body) body :=
    ⟨hs.1, fun name hname => hname⟩
  refine Carries.within id (Carries.sequence (fun {_ s inner} hT' hpath hs hforms => ?_) rfl hbody
    hwithin)
  have hsite : inner.site = some site := by
    rw [Surroundings.site, hpath]
    rfl
  rw [← hsite] at hforms ⊢
  refine ih.execute hending ?_ hs hforms
  rw [hpath]
  exact Typing.getElem?_mono hT' hid

/-- One of two branches is taken after the condition, which may have made new frames. -/
theorem execute_branches (ih : Φ.CarriesAll S F rounds depth) {condition : Expr Site}
    {yes yes' no no' : Run Completion} (hframe : T[frame]? = some around.path)
    (hcondition : condition.Placed S around) (hwithin : condition.Within F)
    (hyes : ∀ {T'}, T'[frame]? = some around.path →
      Φ.Carries S F T' frame (Completion.Ready S F) (Completion.respell Φ.toRespelling) yes yes')
    (hno : ∀ {T'}, T'[frame]? = some around.path →
      Φ.Carries S F T' frame (Completion.Ready S F) (Completion.respell Φ.toRespelling) no no') :
    Φ.Carries S F T frame (Completion.Ready S F) (Completion.respell Φ.toRespelling)
      (do if (← Run.evaluate rounds depth condition).isTruthy then yes else no)
      (do if (← Run.evaluate rounds depth (condition.respell Φ.toRespelling)).isTruthy then yes'
          else no') := by
  refine (ih.evaluate hframe hcondition hwithin).bind fun {T' value} hT _ => ?_
  rw [Value.isTruthy_respell]
  by_cases htruthy : value.isTruthy = true
  · simp only [htruthy, if_true]
    exact hyes (Typing.getElem?_mono hT hframe)
  · simp only [htruthy]
    exact hno (Typing.getElem?_mono hT hframe)

theorem execute_conditional (ih : Φ.CarriesAll S F rounds depth)
    (hending : ending → Φ.done true = true) {condition : Expr Site} {yes : Stmt Site}
    {no : Option (Stmt Site)} (hframe : T[frame]? = some around.path)
    (hs : (Stmt.conditional condition yes no).Placed S around)
    (hwithin : (Stmt.conditional condition yes no).Within F ending around.site) :
    Φ.Carries S F T frame (Completion.Ready S F) (Completion.respell Φ.toRespelling)
      (Access.byDistance.execute rounds (depth + 1) (.conditional condition yes no))
      (Access.byDistance.execute rounds (depth + 1)
        ((Stmt.conditional condition yes no).respell Φ.toRespelling around.site)) := by
  cases no with
  | none =>
    have hcondition : condition.Placed S around := fun v hv => hs.1 v (List.mem_append_left _ hv)
    have hyes : yes.Placed S around := ⟨fun v hv => hs.1 v (List.mem_append_right _ hv), hs.2⟩
    exact execute_branches ih hframe hcondition hwithin.1
      (fun hframe => ih.execute hending hframe hyes hwithin.2)
      fun _ => .pure completion_ready_none
  | some no =>
    have hcondition : condition.Placed S around := fun v hv =>
      hs.1 v (List.mem_append_left _ (List.mem_append_left _ hv))
    have hyes : yes.Placed S around :=
      ⟨fun v hv => hs.1 v (List.mem_append_left _ (List.mem_append_right _ hv)),
        fun name hn => hs.2 name (List.mem_append_left _ hn)⟩
    have hno : no.Placed S (around.declare yes.declared) :=
      ⟨fun v hv => hs.1 v (List.mem_append_right _ hv),
        fun name hn => hs.2 name (List.mem_append_right _ hn)⟩
    refine execute_branches ih hframe hcondition hwithin.1
      (fun hframe => ih.execute hending hframe hyes hwithin.2.1) fun {T'} hframe => ?_
    have hdeclared : T'[frame]? = some (around.declare yes.declared).path := hframe
    exact (ih.execute hending hdeclared hno hwithin.2.2 :)

theorem execute_loop (ih : Φ.CarriesAll S F rounds depth) (hending : ending → Φ.done true = true)
    {condition : Expr Site} {body : Stmt Site} (hframe : T[frame]? = some around.path)
    (hs : (Stmt.loop condition body).Placed S around)
    (hwithin : (Stmt.loop condition body).Within F ending around.site) :
    Φ.Carries S F T frame (Completion.Ready S F) (Completion.respell Φ.toRespelling)
      (Access.byDistance.execute rounds (depth + 1) (.loop condition body))
      (Access.byDistance.execute rounds (depth + 1)
        ((Stmt.loop condition body).respell Φ.toRespelling around.site)) := by
  have hcondition : condition.Placed S around := fun v hv => hs.1 v (List.mem_append_left _ hv)
  have hbody : body.Placed S around := ⟨fun v hv => hs.1 v (List.mem_append_right _ hv), hs.2⟩
  refine Carries.loop (fun hT => ?_) (fun hT => ?_) rounds
  · refine (ih.evaluate (Typing.getElem?_mono hT hframe) hcondition hwithin.1).map
      fun _ _ => ⟨trivial, ?_⟩
    rw [Value.isTruthy_respell]
  · exact ih.execute hending (Typing.getElem?_mono hT hframe) hbody hwithin.2

theorem execute_function (h : Φ.Faithful S F) {site : Site} {name : Token} {params : List Token}
    {body : List (Stmt Site)} (hframe : T[frame]? = some around.path)
    (hs : (Stmt.function site name params body).Placed S around)
    (hwithin : (Stmt.function site name params body).Within F ending around.site) :
    Φ.Carries S F T frame (Completion.Ready S F) (Completion.respell Φ.toRespelling)
      (Access.byDistance.execute rounds (depth + 1) (.function site name params body))
      (Access.byDistance.execute rounds (depth + 1)
        ((Stmt.function site name params body).respell Φ.toRespelling around.site)) := by
  obtain ⟨⟨hname, hfunction⟩, hparams, hforms⟩ := hwithin
  have hdeclarable : S.Declarable around.path name.lexeme := hs.2 _ List.mem_cons_self
  refine .get_bind fun m hm => ?_
  obtain rfl := hm.current
  have hclosure : (Value.closure ⟨site, name, params, body, m.current⟩).Ready S F T :=
    ⟨⟨around.declare [name.lexeme], hframe, hs.1⟩, hparams, hforms⟩
  exact Carries.bind (Carries.define_function h hframe hdeclarable hname hfunction hclosure _)
    (fun _ _ => .pure completion_ready_none) m hm

theorem execute_succ (h : Φ.Faithful S F) (ih : Φ.CarriesAll S F rounds depth)
    (hending : ending → Φ.done true = true) {s : Stmt Site}
    (hframe : T[frame]? = some around.path) (hs : s.Placed S around)
    (hwithin : s.Within F ending around.site) :
    Φ.Carries S F T frame (Completion.Ready S F) (Completion.respell Φ.toRespelling)
      (Access.byDistance.execute rounds (depth + 1) s)
      (Access.byDistance.execute rounds (depth + 1) (s.respell Φ.toRespelling around.site)) := by
  cases s with
  | expression value =>
    exact (ih.evaluate hframe hs.1 hwithin).bind fun _ _ => .pure completion_ready_none
  | print value =>
    refine (ih.evaluate hframe hs.1 hwithin).bind fun _ _ => ?_
    rw [Value.shown_respell]
    exact (Carries.print _).bind fun _ _ => .pure completion_ready_none
  | assert keyword condition =>
    refine (ih.evaluate hframe hs.1 hwithin).bind fun {T' value} hT _ => ?_
    rw [Value.isTruthy_respell]
    by_cases htruthy : value.isTruthy = true
    · simp only [htruthy, if_true]
      exact .pure completion_ready_none
    · simp only [htruthy]
      exact .fail _
  | «variable» name initializer => exact execute_variable h ih hframe hs hwithin
  | block site body => exact execute_block ih hending hframe hs hwithin
  | conditional condition yes no => exact execute_conditional ih hending hframe hs hwithin
  | loop condition body => exact execute_loop ih hending hframe hs hwithin
  | function site name params body => exact execute_function h hframe hs hwithin
  | «return» keyword value =>
    cases value with
    | none => exact .pure (completion_ready_returned (Value.ready_atom _))
    | some value =>
      have hvalue : value.Placed S around := hs.1
      exact (ih.evaluate hframe hvalue hwithin).bind fun _ hready =>
        .pure (completion_ready_returned hready)
  | endMarker =>
    exact (Carries.finish (hending hwithin)).bind fun _ _ => .pure completion_ready_none
  | «foreign» what => exact .fault hwithin _

end Statements

end CarriesAll

/-- Every run carries a faithful translation along. -/
theorem Faithful.carriesAll (h : Φ.Faithful S F) (rounds depth : Nat) :
    Φ.CarriesAll S F rounds depth := by
  induction depth with
  | zero => exact ⟨fun _ _ _ => .fail none, fun _ _ _ _ => .fail none⟩
  | succ depth ih => exact ⟨ih.evaluate_succ h, fun hending => ih.execute_succ h hending⟩

/-- The same holds of a statement that stands by itself. -/
theorem Faithful.carries_interpret (h : Φ.Faithful S F) {ending : Prop}
    (hending : ending → Φ.done true = true) {T : Typing} {frame : FrameId} {around : Surroundings}
    {s : Stmt Site} (hframe : T[frame]? = some around.path) (hs : s.Placed S around)
    (hwithin : s.Within F ending around.site) (rounds depth : Nat) :
    Φ.Carries S F T frame (Value.Ready S F) (Value.respell Φ.toRespelling)
      (Run.interpret rounds depth s)
      (Run.interpret rounds depth (s.respell Φ.toRespelling around.site)) := by
  have hall := h.carriesAll rounds depth
  have hexecute : Φ.Carries S F T frame (Value.Ready S F) (Value.respell Φ.toRespelling)
      (Access.byDistance.execute rounds depth s >>= Run.concluded)
      (Access.byDistance.execute rounds depth (s.respell Φ.toRespelling around.site) >>=
        Run.concluded) := by
    refine (hall.execute hending hframe hs hwithin).bind fun {T' completion} _ _ => ?_
    cases completion with
    | none => exact .pure (Value.ready_atom _)
    | some returned => exact .fail _
  cases s with
  | expression value => exact hall.evaluate hframe hs.1 hwithin
  | «variable» name initializer => cases initializer <;> exact hexecute
  | conditional condition yes no => cases no <;> exact hexecute
  | «return» keyword value => cases value <;> exact hexecute
  | _ => exact hexecute

end Translation

end Lox
