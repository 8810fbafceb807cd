import Lox.Proofs.Scoping.Resolution

/-!
# The scopes of a statement

The local scopes inside a statement, outer ones before inner ones. Numbering gives different scopes
different sites. Resolving refuses a scope that declares a name twice, so what a scope declares as a
variable is not declared by it as a function.
-/
namespace Lox
open Outcome

mutual

/-- The local scopes inside a statement, in the order of the text. -/
def Stmt.scopes : Stmt Site → List Scope
  | .expression _ | .print _ | .assert _ _ | .variable _ _ | .return _ _ | .endMarker | .foreign _ =>
    []
  | .block site body => ⟨site, [], body⟩ :: Stmt.allScopes body
  | .conditional _ yes none => yes.scopes
  | .conditional _ yes (some no) => yes.scopes ++ no.scopes
  | .loop _ body => body.scopes
  | .function site _ params body => ⟨site, params, body⟩ :: Stmt.allScopes body

def Stmt.allScopes : List (Stmt Site) → List Scope
  | [] => []
  | s :: ss => s.scopes ++ Stmt.allScopes ss

end

theorem Stmt.mem_allScopes {scope : Scope} {ss : List (Stmt Site)} :
    scope ∈ Stmt.allScopes ss ↔ ∃ s ∈ ss, scope ∈ s.scopes := by
  induction ss with
  | nil => simp [allScopes]
  | cons s ss ih => simp [allScopes, ih]

/-- Each of some numbered statements is one of the statements, numbered. -/
theorem Stmt.exists_of_mem_numberAll {σ : Type} {root : Stmt Site} :
    ∀ {ss : List (Stmt σ)} {next : Site}, root ∈ (Stmt.numberAll ss next).1 →
      ∃ s ∈ ss, ∃ start, (s.number start).1 = root
  | s :: ss, next, h => by
    rcases List.mem_cons.mp h with rfl | h
    · exact ⟨s, List.mem_cons_self, next, rfl⟩
    · obtain ⟨other, hother, start, hstart⟩ := Stmt.exists_of_mem_numberAll h
      exact ⟨other, List.mem_cons_of_mem _ hother, start, hstart⟩

/-- Scopes whose sites increase from one up to another. -/
structure Ascending (start stop : Site) (scopes : List Scope) : Prop where
  le : start ≤ stop
  increasing : (scopes.map Scope.site).Pairwise (· < ·)
  lower : ∀ scope ∈ scopes, start ≤ scope.site
  upper : ∀ scope ∈ scopes, scope.site < stop

namespace Ascending
variable {start middle stop : Site} {scopes more : List Scope}

theorem nil (h : start ≤ stop) : Ascending start stop [] :=
  ⟨h, .nil, by simp, by simp⟩

theorem append (h : Ascending start middle scopes) (h' : Ascending middle stop more) :
    Ascending start stop (scopes ++ more) where
  le := Nat.le_trans h.le h'.le
  increasing := by
    rw [List.map_append, List.pairwise_append]
    refine ⟨h.increasing, h'.increasing, fun site hs other hm => ?_⟩
    obtain ⟨scope, hscope, rfl⟩ := List.mem_map.mp hs
    obtain ⟨later, hlater, rfl⟩ := List.mem_map.mp hm
    exact Nat.lt_of_lt_of_le (h.upper scope hscope) (h'.lower later hlater)
  lower := by
    intro scope hscope
    rcases List.mem_append.mp hscope with hm | hm
    · exact h.lower scope hm
    · exact Nat.le_trans h.le (h'.lower scope hm)
  upper := by
    intro scope hscope
    rcases List.mem_append.mp hscope with hm | hm
    · exact Nat.lt_of_lt_of_le (h.upper scope hm) h'.le
    · exact h'.upper scope hm

/-- The number in front of the inner scopes is that of the outer one. -/
theorem cons (h : Ascending (start + 1) stop scopes) (params : List Token) (body : List (Stmt Site)) :
    Ascending start stop (⟨start, params, body⟩ :: scopes) where
  le := Nat.le_of_succ_le h.le
  increasing := by
    rw [List.map_cons, List.pairwise_cons]
    refine ⟨fun site hs => ?_, h.increasing⟩
    obtain ⟨scope, hscope, rfl⟩ := List.mem_map.mp hs
    exact h.lower scope hscope
  lower := by
    intro scope hscope
    rcases List.mem_cons.mp hscope with rfl | hm
    · exact Nat.le_refl _
    · exact Nat.le_of_succ_le (h.lower scope hm)
  upper := by
    intro scope hscope
    rcases List.mem_cons.mp hscope with rfl | hm
    · exact h.le
    · exact h.upper scope hm

/-- There is one scope at a site. -/
theorem eq_of_site (h : Ascending start stop scopes) {scope other : Scope} (hscope : scope ∈ scopes)
    (hother : other ∈ scopes) (hsite : scope.site = other.site) : scope = other :=
  List.inj_on_of_nodup_map (h.increasing.imp Nat.ne_of_lt) hscope hother hsite

end Ascending

theorem Expr.le_number {σ : Type} (e : Expr σ) (next : Site) : next ≤ (e.number next).2 :=
  (e.fresh_number .outermost next).le

mutual

/-- Numbering gives the scopes of a statement increasing sites. -/
theorem Stmt.ascending_number {σ : Type} :
    ∀ (s : Stmt σ) (next : Site), Ascending next (s.number next).2 (s.number next).1.scopes
  | .expression value, next | .print value, next | .assert _ value, next
  | .variable _ (some value), next | .return _ (some value), next => .nil (value.le_number next)
  | .variable _ none, next | .return _ none, next | .endMarker, next | .foreign _, next =>
    .nil (Nat.le_refl next)
  | .block _ body, next => (Stmt.ascending_numberAll body (next + 1)).cons _ _
  | .conditional condition yes none, next =>
    (Ascending.nil (condition.le_number next)).append (yes.ascending_number _)
  | .conditional condition yes (some no), next =>
    (Ascending.nil (condition.le_number next)).append
      ((yes.ascending_number _).append (no.ascending_number _))
  | .loop condition body, next =>
    (Ascending.nil (condition.le_number next)).append (body.ascending_number _)
  | .function _ _ _ body, next => (Stmt.ascending_numberAll body (next + 1)).cons _ _

theorem Stmt.ascending_numberAll {σ : Type} :
    ∀ (ss : List (Stmt σ)) (next : Site),
      Ascending next (Stmt.numberAll ss next).2 (Stmt.allScopes (Stmt.numberAll ss next).1)
  | [], next => .nil (Nat.le_refl next)
  | s :: ss, next => (s.ascending_number next).append (Stmt.ascending_numberAll ss _)

end

/-- The names of the variables that a statement declares in the scope it stands in. -/
def Stmt.variableNames {σ : Type} : Stmt σ → List String
  | .variable name _ => [name.lexeme]
  | .conditional _ yes none => yes.variableNames
  | .conditional _ yes (some no) => yes.variableNames ++ no.variableNames
  | .loop _ body => body.variableNames
  | _ => []

/-- The names of the functions that a statement declares in the scope it stands in. -/
def Stmt.functionNames {σ : Type} : Stmt σ → List String
  | .function _ name _ _ => [name.lexeme]
  | .conditional _ yes none => yes.functionNames
  | .conditional _ yes (some no) => yes.functionNames ++ no.functionNames
  | .loop _ body => body.functionNames
  | _ => []

/-- The names of the parameters and variables of a scope. -/
def Scope.variableNames (scope : Scope) : List String :=
  scope.params.map (·.lexeme) ++ scope.body.flatMap Stmt.variableNames

/-- The names of the functions of a scope. -/
def Scope.functionNames (scope : Scope) : List String :=
  scope.body.flatMap Stmt.functionNames

/-- A statement declares variables and functions. -/
theorem Stmt.count_declared {σ : Type} (name : String) : ∀ s : Stmt σ,
    s.declared.count name = s.variableNames.count name + s.functionNames.count name
  | .expression _ | .print _ | .assert _ _ | .block _ _ | .return _ _ | .endMarker | .foreign _
  | .function _ _ _ _ => by simp [declared, variableNames, functionNames]
  | .variable _ _ => by simp [declared, variableNames, functionNames]
  | .conditional _ yes none => by
    simpa [declared, variableNames, functionNames] using yes.count_declared name
  | .conditional _ yes (some no) => by
    simp only [declared, variableNames, functionNames, List.count_append, yes.count_declared name,
      no.count_declared name]
    omega
  | .loop _ body => by simpa [declared, variableNames, functionNames] using body.count_declared name

theorem Scope.count_names (scope : Scope) (name : String) :
    scope.names.count name = scope.variableNames.count name + scope.functionNames.count name := by
  have hbody : ∀ ss : List (Stmt Site), (Stmt.allDeclared ss).count name =
      (ss.flatMap Stmt.variableNames).count name + (ss.flatMap Stmt.functionNames).count name := by
    intro ss
    induction ss with
    | nil => rfl
    | cons s ss ih =>
      simp only [Stmt.allDeclared_cons, List.flatMap_cons, List.count_append, s.count_declared name, ih]
      omega
  simp only [names, variableNames, functionNames, List.count_append, hbody]
  omega

/-- Where no name is declared twice, a variable is not a function as well. -/
theorem Scope.not_mem_functionNames {scope : Scope} (h : scope.names.Nodup) {name : String}
    (hname : name ∈ scope.variableNames) : name ∉ scope.functionNames := by
  intro hfunction
  have hcount := List.nodup_iff_count_le_one.mp h name
  have hvariable := List.count_pos_iff.mpr hname
  have hfunction := List.count_pos_iff.mpr hfunction
  rw [scope.count_names name] at hcount
  omega

namespace Resolver
variable {depth : Nat} {w w' : Walk}

/-- A walk inside scopes none of which has declared a name twice. -/
def Distinct (w : Walk) : Prop :=
  ∀ scope ∈ w.scopes, scope.Nodup

theorem declare_distinct {name : Token} (hw : Distinct w) (h : declare name w = .ok () w') :
    Distinct w' := by
  obtain ⟨scopes, initializing, inFunction, found⟩ := w
  cases scopes with
  | nil => cases h; exact hw
  | cons scope outer =>
    simp only [declare, get_bind_apply] at h
    split at h
    · cases h
    · rename_i hfresh
      cases h
      intro other hother
      rcases List.mem_cons.mp hother with rfl | houter
      · exact List.nodup_cons.mpr ⟨by simpa using hfresh, hw scope List.mem_cons_self⟩
      · exact hw other (List.mem_cons_of_mem _ houter)

theorem forM_declare_distinct {params : List Token} (hw : Distinct w)
    (h : params.forM declare w = .ok () w') : Distinct w' := by
  induction params generalizing w with
  | nil => cases h; exact hw
  | cons param params ih =>
    obtain ⟨t, h₁, h₂⟩ := forM_cons_eq_ok.mp h
    exact ih (declare_distinct hw h₁) h₂

theorem forM_statement_distinct {walk : Stmt Site → Resolver Unit}
    (hwalk : ∀ {s w w'}, w.initializing = none → Distinct w → walk s w = .ok () w' →
      w'.initializing = none ∧ Distinct w' ∧ ∀ scope ∈ s.scopes, scope.names.Nodup)
    {ss : List (Stmt Site)} (hinit : w.initializing = none) (hw : Distinct w)
    (h : ss.forM walk w = .ok () w') :
    Distinct w' ∧ ∀ scope ∈ Stmt.allScopes ss, scope.names.Nodup := by
  induction ss generalizing w with
  | nil => cases h; exact ⟨hw, by simp [Stmt.allScopes]⟩
  | cons s ss ih =>
    obtain ⟨t, h₁, h₂⟩ := forM_cons_eq_ok.mp h
    obtain ⟨hinit', ht, hfirst⟩ := hwalk hinit hw h₁
    obtain ⟨hw', hrest⟩ := ih hinit' ht h₂
    exact ⟨hw', fun scope hscope =>
      (List.mem_append.mp hscope).elim (hfirst scope) (hrest scope)⟩

/-- All that a new scope has declared is distinct if what it holds is. -/
theorem nodup_of_declareIn {names : List String} (outer : List (List String))
    (h : ∀ scope ∈ declareIn names ([] :: outer), scope.Nodup) : names.Nodup := by
  have hhead := h (names.reverse ++ []) List.mem_cons_self
  rwa [List.append_nil, List.nodup_reverse] at hhead

/-- After a successful walk through a statement no scope has declared a name twice. -/
theorem statement_distinct {s : Stmt Site} (hinit : w.initializing = none) (hw : Distinct w)
    (h : statement depth s w = .ok () w') :
    Distinct w' ∧ ∀ scope ∈ s.scopes, scope.names.Nodup := by
  induction depth generalizing s w w' with
  | zero => cases h
  | succ depth ih =>
    have hall : ∀ {s : Stmt Site} {w w' : Walk}, w.initializing = none → Distinct w →
        statement depth s w = .ok () w' →
        w'.initializing = none ∧ Distinct w' ∧ ∀ scope ∈ s.scopes, scope.names.Nodup := by
      intro s w w' hinit hw h
      refine ⟨?_, ih hinit hw h⟩
      rw [statement_eq_ok [] hinit h]
      exact hinit
    cases s with
    | expression value | print value | assert _ value =>
      rw [expression_eq_ok [] h]
      exact ⟨hw, by simp [Stmt.scopes]⟩
    | «variable» name initializer =>
      obtain ⟨_, t, hd, hi⟩ := bind_eq_ok.mp h
      have ht := declare_distinct hw hd
      refine ⟨?_, by simp [Stmt.scopes]⟩
      cases initializer with
      | none => cases hi; exact ht
      | some value =>
        simp only [inInitializer, modify_bind_apply] at hi
        obtain ⟨_, u, hv, hm⟩ := bind_eq_ok.mp hi
        obtain rfl := expression_eq_ok [] hv
        cases hm
        exact ht
    | block site body =>
      simp only [statement, inScope, modify_bind_apply] at h
      obtain ⟨_, t, hb, hm⟩ := bind_eq_ok.mp h
      have hinner : Distinct ⟨[] :: w.scopes, w.initializing, w.inFunction, w.found⟩ :=
        fun scope hscope => (List.mem_cons.mp hscope).elim (fun h => h ▸ List.nodup_nil) (hw scope)
      obtain ⟨ht, hscopes⟩ := forM_statement_distinct hall (by exact hinit) hinner hb
      have hnames := forM_statement_eq_ok [] (fun hinit h => statement_eq_ok _ hinit h)
        (by exact hinit) hb
      subst hnames
      cases hm
      refine ⟨fun scope hscope => ht scope (List.mem_of_mem_tail hscope), fun scope hscope => ?_⟩
      rcases List.mem_cons.mp hscope with rfl | hm
      · exact nodup_of_declareIn w.scopes ht
      · exact hscopes scope hm
    | conditional condition yes no =>
      obtain ⟨_, t, hc, hr⟩ := bind_eq_ok.mp h
      obtain rfl := expression_eq_ok [] hc
      obtain ⟨_, u, hy, hn⟩ := bind_eq_ok.mp hr
      obtain ⟨hinit', hu, hyes⟩ := hall (w := w.behind _) hinit hw hy
      cases no with
      | none => cases hn; exact ⟨hu, hyes⟩
      | some no =>
        obtain ⟨-, hw', hno⟩ := hall hinit' hu hn
        exact ⟨hw', fun scope hscope => (List.mem_append.mp hscope).elim (hyes scope) (hno scope)⟩
    | loop condition body =>
      obtain ⟨_, t, hc, hb⟩ := bind_eq_ok.mp h
      obtain rfl := expression_eq_ok [] hc
      exact ih (s := body) (w := w.behind _) hinit hw hb
    | function site name params body =>
      obtain ⟨_, t, hd, hf⟩ := bind_eq_ok.mp h
      have ht := declare_distinct hw hd
      obtain rfl := declare_eq_ok hd
      simp only [inFunction, get_bind_apply, inScope, modify_bind_apply] at hf
      obtain ⟨_, u, hb, hm⟩ := bind_eq_ok.mp hf
      simp only [modify_bind_apply] at hb
      obtain ⟨_, v, hp, hb⟩ := bind_eq_ok.mp hb
      have hinner : Distinct
          ⟨[] :: (w.declare [name.lexeme]).scopes, w.initializing, true, w.found⟩ :=
        fun scope hscope => (List.mem_cons.mp hscope).elim (fun h => h ▸ List.nodup_nil) (ht scope)
      have hv := forM_declare_distinct (by exact hinner) hp
      obtain rfl := forM_declare_eq_ok hp
      obtain ⟨_, x, hb, hr⟩ := bind_eq_ok.mp hb
      obtain ⟨hx, hscopes⟩ := forM_statement_distinct hall (by exact hinit) hv hb
      have hnames := forM_statement_eq_ok [] (fun hinit h => statement_eq_ok _ hinit h)
        (by exact hinit) hb
      subst hnames
      cases hr
      cases hm
      refine ⟨fun scope hscope => hx scope (List.mem_of_mem_tail hscope), fun scope hscope => ?_⟩
      rcases List.mem_cons.mp hscope with rfl | hm
      · refine nodup_of_declareIn (w.declare [name.lexeme]).scopes ?_
        rw [Scope.names, declareIn_append]
        exact hx
      · exact hscopes scope hm
    | «return» keyword value =>
      refine ⟨?_, by simp [Stmt.scopes]⟩
      cases value with
      | none => cases h; exact hw
      | some value => rw [expression_eq_ok [] h]; exact hw
    | endMarker => cases h; exact ⟨hw, by simp [Stmt.scopes]⟩
    | «foreign» what => cases h

end Resolver

/-- No scope of a statement that can be resolved declares a name twice. -/
theorem Stmt.nodup_names_of_resolve {depth : Nat} {s : Stmt Site} {bindings : List Binding}
    (h : s.resolve depth = (.ok (), bindings)) {scope : Scope} (hscope : scope ∈ s.scopes) :
    scope.names.Nodup := by
  obtain ⟨walk, hwalk, -⟩ := s.exists_walk h
  exact (Resolver.statement_distinct rfl (by simp [Resolver.Distinct, Walk.start]) hwalk).2 scope hscope

end Lox
