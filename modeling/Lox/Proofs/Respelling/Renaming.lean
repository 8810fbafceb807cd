import Lox.Proofs.Respelling.Lines
import Lox.Proofs.Scoping.Scopes

/-!
# Another name for a local variable

A variable or parameter of a local scope gets a name that occurs nowhere in the program: in its
declaration, and in the references that are bound to it. Other variables of its old name keep that
name, in outer and inner scopes and among the globals. The respelled program has the same bindings.
-/
namespace Lox
variable {σ : Type}

/-- All that may occur in trees without a certain name. -/
def Forms.avoiding (name : String) : Forms σ :=
  ⟨True, (· ≠ name), fun _ _ => True⟩

/-- A name that occurs nowhere in a statement. -/
def Stmt.Avoids (name : String) (s : Stmt Site) : Prop :=
  s.Within (.avoiding name) True none

section Avoiding
variable {name : String} {allowed : Option Site → String → Prop}

mutual

theorem Expr.Within.avoiding : ∀ {e : Expr Site}, e.Within .regular → e.Within (.avoiding name) →
    e.Within ⟨False, (· ≠ name), allowed⟩
  | .literal _, _, _ => trivial
  | .grouping inner, h, h' => Expr.Within.avoiding (e := inner) h h'
  | .unary _ operand, h, h' => Expr.Within.avoiding (e := operand) h h'
  | .binary _ _ _, h, h' =>
    ⟨h.1, Expr.Within.avoiding h.2.1 h'.2.1, Expr.Within.avoiding h.2.2 h'.2.2⟩
  | .logical _ _ _, h, h' => ⟨Expr.Within.avoiding h.1 h'.1, Expr.Within.avoiding h.2 h'.2⟩
  | .variable _ _, _, h' => h'
  | .assignment _ _ _, h, h' => ⟨h'.1, Expr.Within.avoiding h.2 h'.2⟩
  | .call _ _ _, h, h' => ⟨Expr.Within.avoiding h.1 h'.1, Expr.AllWithin.avoiding h.2 h'.2⟩
  | .foreign _, h, _ => h

theorem Expr.AllWithin.avoiding : ∀ {es : List (Expr Site)}, Expr.AllWithin .regular es →
    Expr.AllWithin (.avoiding name) es → Expr.AllWithin ⟨False, (· ≠ name), allowed⟩ es
  | [], _, _ => trivial
  | _ :: _, h, h' => ⟨Expr.Within.avoiding h.1 h'.1, Expr.AllWithin.avoiding h.2 h'.2⟩

end

mutual

/-- A regular statement without a certain name, in which every scope declares certain functions
only. -/
theorem Stmt.Within.avoiding {ending : Prop} : ∀ {s : Stmt Site} {scope : Option Site},
    s.Within .regular ending scope → s.Within (.avoiding name) ending scope →
      (∀ f ∈ s.functionNames, allowed scope f) →
        (∀ inner ∈ s.scopes, ∀ f ∈ inner.functionNames, allowed (some inner.site) f) →
          s.Within ⟨False, (· ≠ name), allowed⟩ ending scope
  | .expression value, _, h, h', _, _ | .print value, _, h, h', _, _
  | .assert _ value, _, h, h', _, _ | .return _ (some value), _, h, h', _, _ =>
    Expr.Within.avoiding (e := value) h h'
  | .variable _ none, _, _, h', _, _ => h'
  | .variable _ (some _), _, h, h', _, _ => ⟨h'.1, Expr.Within.avoiding h.2 h'.2⟩
  | .block site body, _, h, h', _, hinner =>
    Stmt.AllWithin.avoiding body h h' (hinner ⟨site, [], body⟩ List.mem_cons_self)
      fun inner hmem => hinner inner (List.mem_cons_of_mem _ hmem)
  | .conditional _ yes none, _, h, h', hown, hinner =>
    ⟨Expr.Within.avoiding h.1 h'.1, Stmt.Within.avoiding (s := yes) h.2 h'.2 hown hinner⟩
  | .conditional _ yes (some no), _, h, h', hown, hinner =>
    ⟨Expr.Within.avoiding h.1 h'.1,
      Stmt.Within.avoiding (s := yes) h.2.1 h'.2.1
        (fun f hf => hown f (List.mem_append_left _ hf))
        fun inner hmem => hinner inner (List.mem_append_left _ hmem),
      Stmt.Within.avoiding (s := no) h.2.2 h'.2.2
        (fun f hf => hown f (List.mem_append_right _ hf))
        fun inner hmem => hinner inner (List.mem_append_right _ hmem)⟩
  | .loop _ body, _, h, h', hown, hinner =>
    ⟨Expr.Within.avoiding h.1 h'.1, Stmt.Within.avoiding (s := body) h.2 h'.2 hown hinner⟩
  | .function site _ params body, _, h, h', hown, hinner =>
    ⟨⟨h'.1.1, hown _ List.mem_cons_self⟩, h'.2.1,
      Stmt.AllWithin.avoiding body h.2.2 h'.2.2
        (hinner ⟨site, params, body⟩ List.mem_cons_self)
        fun inner hmem => hinner inner (List.mem_cons_of_mem _ hmem)⟩
  | .return _ none, _, _, _, _, _ => trivial
  | .endMarker, _, h, _, _, _ => h
  | .foreign _, _, h, _, _, _ => h

theorem Stmt.AllWithin.avoiding {ending : Prop} : ∀ (ss : List (Stmt Site)) {scope : Option Site},
    Stmt.AllWithin .regular ending scope ss → Stmt.AllWithin (.avoiding name) ending scope ss →
      (∀ f ∈ ss.flatMap Stmt.functionNames, allowed scope f) →
        (∀ inner ∈ Stmt.allScopes ss, ∀ f ∈ inner.functionNames, allowed (some inner.site) f) →
          Stmt.AllWithin ⟨False, (· ≠ name), allowed⟩ ending scope ss
  | [], _, _, _, _, _ => trivial
  | s :: ss, _, h, h', hown, hinner =>
    ⟨Stmt.Within.avoiding (s := s) h.1 h'.1 (fun f hf => hown f (List.mem_append_left _ hf))
        fun inner hmem => hinner inner (List.mem_append_left _ hmem),
      Stmt.AllWithin.avoiding ss h.2 h'.2 (fun f hf => hown f (List.mem_append_right _ hf))
        fun inner hmem => hinner inner (List.mem_append_right _ hmem)⟩

end

end Avoiding

section Renumbering
variable (ρ : Respelling Site)

mutual

/-- An expression keeps its numbers in every spelling. -/
theorem Expr.number_respell_number : ∀ (e : Expr σ) (next : Site),
    ((e.number next).1.respell ρ).number next = ((e.number next).1.respell ρ, (e.number next).2)
  | .literal _, _ | .foreign _, _ | .variable _ _, _ => rfl
  | .grouping inner, next => by
    simp only [Expr.number, counting_bind, counting_pure, Expr.respell, inner.number_respell_number]
  | .unary operator operand, next => by
    simp only [Expr.number, counting_bind, counting_pure, Expr.respell,
      operand.number_respell_number]
  | .binary left operator right, next => by
    simp only [Expr.number, counting_bind, counting_pure, Expr.respell, left.number_respell_number,
      right.number_respell_number]
  | .logical left operator right, next => by
    simp only [Expr.number, counting_bind, counting_pure, Expr.respell, left.number_respell_number,
      right.number_respell_number]
  | .assignment _ name value, next => by
    simp only [Expr.number, counting_bind, counting_pure, Expr.respell, freshSite,
      value.number_respell_number]
  | .call callee paren arguments, next => by
    simp only [Expr.number, counting_bind, counting_pure, Expr.respell,
      callee.number_respell_number, Expr.numberAll_respell_number arguments]

theorem Expr.numberAll_respell_number : ∀ (es : List (Expr σ)) (next : Site),
    Expr.numberAll (Expr.respellAll ρ (Expr.numberAll es next).1) next =
      (Expr.respellAll ρ (Expr.numberAll es next).1, (Expr.numberAll es next).2)
  | [], _ => rfl
  | e :: es, next => by
    simp only [Expr.numberAll, counting_bind, counting_pure, Expr.respellAll, e.number_respell_number,
      Expr.numberAll_respell_number es]

end

mutual

/-- A statement keeps its numbers in every spelling. -/
theorem Stmt.number_respell_number : ∀ (s : Stmt σ) (scope : Option Site) (next : Site),
    ((s.number next).1.respell ρ scope).number next =
      ((s.number next).1.respell ρ scope, (s.number next).2)
  | .expression value, _, next | .print value, _, next | .assert _ value, _, next
  | .variable _ (some value), _, next | .return _ (some value), _, next => by
    simp only [Stmt.number, counting_bind, counting_pure, Stmt.respell, value.number_respell_number]
  | .variable _ none, _, _ | .return _ none, _, _ | .endMarker, _, _ | .foreign _, _, _ => rfl
  | .block _ body, _, next => by
    simp only [Stmt.number, counting_bind, counting_pure, Stmt.respell, freshSite,
      Stmt.numberAll_respell_number body]
  | .conditional condition yes none, scope, next => by
    simp only [Stmt.number, counting_bind, counting_pure, Stmt.respell,
      condition.number_respell_number, yes.number_respell_number scope]
  | .conditional condition yes (some no), scope, next => by
    simp only [Stmt.number, counting_bind, counting_pure, Stmt.respell,
      condition.number_respell_number, yes.number_respell_number scope,
      no.number_respell_number scope]
  | .loop condition body, scope, next => by
    simp only [Stmt.number, counting_bind, counting_pure, Stmt.respell,
      condition.number_respell_number, body.number_respell_number scope]
  | .function _ name params body, _, next => by
    simp only [Stmt.number, counting_bind, counting_pure, Stmt.respell, freshSite,
      Stmt.numberAll_respell_number body]

theorem Stmt.numberAll_respell_number :
    ∀ (ss : List (Stmt σ)) (scope : Option Site) (next : Site),
      Stmt.numberAll (Stmt.respellAll ρ scope (Stmt.numberAll ss next).1) next =
        (Stmt.respellAll ρ scope (Stmt.numberAll ss next).1, (Stmt.numberAll ss next).2)
  | [], _, _ => rfl
  | s :: ss, scope, next => by
    simp only [Stmt.numberAll, counting_bind, counting_pure, Stmt.respellAll,
      s.number_respell_number scope, Stmt.numberAll_respell_number ss scope]

end

/-- What is numbered as another statement in another spelling uses the same numbers. -/
theorem Stmt.number_eq_respell {s other : Stmt σ} {scope : Option Site} {next : Site}
    (h : (other.number next).1 = (s.number next).1.respell ρ scope) :
    other.number next = ((s.number next).1.respell ρ scope, (s.number next).2) := by
  have hself := other.number_respell_number .none scope next
  rw [Stmt.respell_none, h, s.number_respell_number ρ scope next] at hself
  exact Prod.ext h (congrArg Prod.snd hself).symm

end Renumbering

/-- The references of statements that stand outside of all local scopes. -/
def references (program : List (Stmt Site)) : List Visit :=
  program.flatMap (Stmt.visits .outermost)

theorem allVisits_outermost (program : List (Stmt Site)) :
    Stmt.allVisits .outermost program = references program := by
  induction program with
  | nil => rfl
  | cons s ss ih =>
    -- Outside of all scopes a declaration leaves the surroundings as they are.
    have hdeclare : Surroundings.outermost.declare s.declared = .outermost := rfl
    rw [Stmt.allVisits, hdeclare, ih, references, references, List.flatMap_cons]

/-- A variable of a local scope gets another name. -/
structure Renaming where
  scope : Site
  name : String
  other : String
  deriving DecidableEq, Repr

namespace Renaming
variable (r : Renaming) {program : List (Stmt Site)}

/-- The variable is a variable or a parameter of a local scope of the program. -/
def Local (program : List (Stmt Site)) : Prop :=
  ∃ scope ∈ Stmt.allScopes program, scope.site = r.scope ∧ r.name ∈ scope.variableNames

/-- Whether a reference is bound to the variable. -/
def Concerns (v : Visit) : Prop :=
  v.home = some r.scope ∧ v.name.lexeme = r.name

instance (v : Visit) : Decidable (r.Concerns v) :=
  inferInstanceAs (Decidable (_ ∧ _))

/-- The names that a scope declares. -/
def declared (scope : Option Site) (name : String) : String :=
  if scope = some r.scope ∧ name = r.name then r.other else name

/-- Names of globals stay. -/
@[simp] theorem declared_none (name : String) : r.declared none name = name :=
  if_neg fun h => nomatch h.1

/-- The variable has its other name where it is declared, and in the references that are bound to
it. -/
def respelling (program : List (Stmt Site)) : Respelling Site where
  line := id
  reference site name :=
    if ∃ v ∈ references program, v.site = site ∧ r.Concerns v then r.other else name
  declared := r.declared

/-- Trees without the other name, in which the scope of the variable has no function of its name. -/
def forms : Forms Site :=
  ⟨False, (· ≠ r.other), fun scope name => ¬(scope = some r.scope ∧ name = r.name)⟩

/-- The program with the other name. -/
def apply (program : List (Stmt Site)) : List (Stmt Site) :=
  program.map (Stmt.respell (r.respelling program) none)

/-- Where the other name does not occur, no two names are made one. -/
theorem proper : (r.respelling program).Proper r.forms where
  injective := by
    intro scope other a b ha hb heq
    have heq' : r.declared scope a = r.declared other b := heq
    unfold declared at heq'
    split at heq'
    · rename_i hconcerned
      split at heq'
      · rename_i hconcerned'
        exact hconcerned.2.trans hconcerned'.2.symm
      · exact absurd heq'.symm hb
    · split at heq'
      · exact absurd heq' ha
      · exact heq'
  function := fun h => if_neg h

/-- Every reference is spelled like the declaration that it is bound to. -/
theorem spelled (hnodup : ((references program).map Visit.site).Nodup) {v : Visit}
    (hv : v ∈ references program) : v.Spelled (r.respelling program) := by
  have honly : (∃ u ∈ references program, u.site = v.site ∧ r.Concerns u) ↔ r.Concerns v := by
    constructor
    · rintro ⟨u, hu, hsite, hconcerns⟩
      rwa [List.inj_on_of_nodup_map hnodup hu hv hsite] at hconcerns
    · exact fun hconcerns => ⟨v, hv, rfl, hconcerns⟩
  show (if ∃ u ∈ references program, u.site = v.site ∧ r.Concerns u then r.other else v.name.lexeme) =
    if r.Concerns v then r.other else v.name.lexeme
  simp only [honly]

/-- In a program that can be resolved, with numbers of its own for every scope, the scope of a
variable has no function of the same name. -/
theorem Local.not_mem_functionNames {r : Renaming} (h : r.Local program) {start stop : Site}
    (hscopes : Ascending start stop (Stmt.allScopes program))
    (hnames : ∀ scope ∈ Stmt.allScopes program, scope.names.Nodup) {scope : Scope}
    (hscope : scope ∈ Stmt.allScopes program) (hsite : scope.site = r.scope) :
    r.name ∉ scope.functionNames := by
  obtain ⟨owner, howner, hown, hname⟩ := h
  obtain rfl := hscopes.eq_of_site hscope howner (hsite.trans hown.symm)
  exact Scope.not_mem_functionNames (hnames scope hscope) hname

end Renaming

end Lox
