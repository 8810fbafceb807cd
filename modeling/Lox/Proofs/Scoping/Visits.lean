import Lox.Binding.Resolver
import Mathlib.Data.List.Nodup

/-!
# Scopes and the references inside them

A local scope is a block, or the parameters and the body of a function. Every reference of a tree
stands inside some of them. This module lists the references of a tree in the order in which they
are bound, each with the scopes around it and with what these have declared before it. Numbering
gives different references different sites.
-/
namespace Lox

/-- The names that a statement declares in the scope it stands in, in the order of the text. -/
def Stmt.declared {σ : Type} : Stmt σ → List String
  | .expression _ | .print _ | .assert _ _ | .block _ _ | .return _ _ | .endMarker | .foreign _ => []
  | .variable name _ | .function _ name _ _ => [name.lexeme]
  | .conditional _ yes none => yes.declared
  | .conditional _ yes (some no) => yes.declared ++ no.declared
  | .loop _ body => body.declared

/-- The names that statements declare in the scope they stand in. -/
def Stmt.allDeclared {σ : Type} (ss : List (Stmt σ)) : List String :=
  ss.flatMap Stmt.declared

/-- A block, or the parameters and the body of a function. A block has no parameters. -/
structure Scope where
  site : Site
  params : List Token
  body : List (Stmt Site)

/-- All names that the scope declares, wherever in it. -/
def Scope.names (scope : Scope) : List String :=
  scope.params.map (·.lexeme) ++ Stmt.allDeclared scope.body

/-- What surrounds a place of a tree: the scopes around it, innermost first, the names that each of
them has declared so far, last first, and whether one of them belongs to a function. -/
structure Surroundings where
  path : List Scope
  scopes : List (List String)
  inFunction : Bool

/-- More names in the innermost of some scopes, if there is one. -/
def declareIn (names : List String) : List (List String) → List (List String)
  | [] => []
  | scope :: outer => (names.reverse ++ scope) :: outer

@[simp] theorem declareIn_nil (scopes : List (List String)) : declareIn [] scopes = scopes := by
  cases scopes <;> rfl

theorem declareIn_append (names more : List String) (scopes : List (List String)) :
    declareIn (names ++ more) scopes = declareIn more (declareIn names scopes) := by
  cases scopes <;> simp [declareIn]

@[simp] theorem length_declareIn (names : List String) (scopes : List (List String)) :
    (declareIn names scopes).length = scopes.length := by
  cases scopes <;> rfl

namespace Surroundings

/-- Outside of all local scopes. -/
def outermost : Surroundings := ⟨[], [], false⟩

/-- Behind a declaration of some names. -/
def declare (around : Surroundings) (names : List String) : Surroundings :=
  { around with scopes := declareIn names around.scopes }

/-- At the start of a block. -/
def inBlock (around : Surroundings) (site : Site) (body : List (Stmt Site)) : Surroundings :=
  ⟨⟨site, [], body⟩ :: around.path, [] :: around.scopes, around.inFunction⟩

/-- At the start of the body of a function, whose parameters are declared. -/
def inBody (around : Surroundings) (site : Site) (params : List Token) (body : List (Stmt Site)) :
    Surroundings :=
  ⟨⟨site, params, body⟩ :: around.path,
    declareIn (params.map (·.lexeme)) ([] :: around.scopes), true⟩

@[simp] theorem path_declare (around : Surroundings) (names : List String) :
    (around.declare names).path = around.path := rfl

@[simp] theorem scopes_declare (around : Surroundings) (names : List String) :
    (around.declare names).scopes = declareIn names around.scopes := rfl

@[simp] theorem inFunction_declare (around : Surroundings) (names : List String) :
    (around.declare names).inFunction = around.inFunction := rfl

@[simp] theorem declare_nil (around : Surroundings) : around.declare [] = around := by
  simp [declare]

end Surroundings

/-- A reference and what surrounds it. -/
structure Visit where
  site : Site
  kind : ReferenceKind
  name : Token
  around : Surroundings

/-- The binding of a reference to the innermost scope that has declared its name before. -/
def Visit.binding? (v : Visit) : Option Binding :=
  (findScope v.name.lexeme v.around.scopes).map fun distance =>
    ⟨v.site, v.kind, v.name, distance, v.around.inFunction⟩

mutual

/-- The references of an expression in the order in which they are bound: an assignment comes
behind its value. -/
def Expr.visits (around : Surroundings) : Expr Site → List Visit
  | .literal _ => []
  | .grouping inner => inner.visits around
  | .unary _ operand => operand.visits around
  | .binary left _ right => left.visits around ++ right.visits around
  | .logical left _ right => left.visits around ++ right.visits around
  | .variable site name => [⟨site, .read, name, around⟩]
  | .assignment site name value => value.visits around ++ [⟨site, .assignment, name, around⟩]
  | .call callee _ arguments => callee.visits around ++ Expr.allVisits around arguments
  | .foreign _ => []

/-- The references of expressions. -/
def Expr.allVisits (around : Surroundings) : List (Expr Site) → List Visit
  | [] => []
  | e :: es => e.visits around ++ Expr.allVisits around es

end

mutual

/-- The references of a statement in the order in which they are bound. -/
def Stmt.visits : Surroundings → Stmt Site → List Visit
  | around, .expression value => value.visits around
  | around, .print value => value.visits around
  | around, .assert _ condition => condition.visits around
  | _, .variable _ none => []
  | around, .variable name (some initializer) => initializer.visits (around.declare [name.lexeme])
  | around, .block site body => Stmt.allVisits (around.inBlock site body) body
  | around, .conditional condition yes none => condition.visits around ++ yes.visits around
  | around, .conditional condition yes (some no) =>
    condition.visits around ++ yes.visits around ++ no.visits (around.declare yes.declared)
  | around, .loop condition body => condition.visits around ++ body.visits around
  | around, .function site name params body =>
    Stmt.allVisits ((around.declare [name.lexeme]).inBody site params body) body
  | _, .return _ none => []
  | around, .return _ (some value) => value.visits around
  | _, .endMarker => []
  | _, .foreign _ => []

/-- The references of statements, each of which stands behind the declarations of those before. -/
def Stmt.allVisits : Surroundings → List (Stmt Site) → List Visit
  | _, [] => []
  | around, s :: ss => s.visits around ++ Stmt.allVisits (around.declare s.declared) ss

end

@[simp] theorem Stmt.allDeclared_nil {σ : Type} :
    Stmt.allDeclared ([] : List (Stmt σ)) = [] := rfl

@[simp] theorem Stmt.allDeclared_cons {σ : Type} (s : Stmt σ) (ss : List (Stmt σ)) :
    Stmt.allDeclared (s :: ss) = s.declared ++ Stmt.allDeclared ss := rfl

theorem Surroundings.declare_append (around : Surroundings) (names more : List String) :
    around.declare (names ++ more) = (around.declare names).declare more := by
  simp [declare, declareIn_append]

mutual

/-- All references of an expression have the same surroundings. -/
theorem Expr.around_of_mem_visits {around : Surroundings} {v : Visit} :
    ∀ e : Expr Site, v ∈ e.visits around → v.around = around
  | .literal _, h => by simp [Expr.visits] at h
  | .grouping inner, h => inner.around_of_mem_visits h
  | .unary _ operand, h => operand.around_of_mem_visits h
  | .binary left _ right, h =>
    (List.mem_append.mp h).elim left.around_of_mem_visits right.around_of_mem_visits
  | .logical left _ right, h =>
    (List.mem_append.mp h).elim left.around_of_mem_visits right.around_of_mem_visits
  | .variable site name, h => by
    obtain rfl := List.mem_singleton.mp h
    rfl
  | .assignment site name value, h => by
    rcases List.mem_append.mp h with h | h
    · exact value.around_of_mem_visits h
    · obtain rfl := List.mem_singleton.mp h
      rfl
  | .call callee _ arguments, h =>
    (List.mem_append.mp h).elim callee.around_of_mem_visits
      (Expr.around_of_mem_allVisits arguments)
  | .foreign _, h => by simp [Expr.visits] at h

theorem Expr.around_of_mem_allVisits {around : Surroundings} {v : Visit} :
    ∀ es : List (Expr Site), v ∈ Expr.allVisits around es → v.around = around
  | [], h => by simp [Expr.allVisits] at h
  | e :: es, h =>
    (List.mem_append.mp h).elim e.around_of_mem_visits (Expr.around_of_mem_allVisits es)

end

theorem Expr.mem_allVisits {around : Surroundings} {v : Visit} {e : Expr Site}
    {es : List (Expr Site)} (he : e ∈ es) (hv : v ∈ e.visits around) :
    v ∈ Expr.allVisits around es := by
  induction es with
  | nil => cases he
  | cons first es ih =>
    rcases List.mem_cons.mp he with rfl | he
    · exact List.mem_append_left _ hv
    · exact List.mem_append_right _ (ih he)

mutual

/-- All references of a statement inside a function are inside that function. -/
theorem Stmt.inFunction_of_mem_visits {around : Surroundings} {v : Visit}
    (hin : around.inFunction = true) :
    ∀ s : Stmt Site, v ∈ s.visits around → v.around.inFunction = true
  | .expression value, h => by rw [value.around_of_mem_visits h, hin]
  | .print value, h => by rw [value.around_of_mem_visits h, hin]
  | .assert _ condition, h => by rw [condition.around_of_mem_visits h, hin]
  | .variable _ none, h => by simp [Stmt.visits] at h
  | .variable name (some initializer), h => by
    rw [initializer.around_of_mem_visits h]
    exact hin
  | .block site body, h =>
    Stmt.inFunction_of_mem_allVisits (show (around.inBlock site body).inFunction = true from hin) body h
  | .conditional condition yes none, h => by
    rcases List.mem_append.mp h with h | h
    · rw [condition.around_of_mem_visits h, hin]
    · exact yes.inFunction_of_mem_visits hin h
  | .conditional condition yes (some no), h => by
    rcases List.mem_append.mp h with h | h
    · rcases List.mem_append.mp h with h | h
      · rw [condition.around_of_mem_visits h, hin]
      · exact yes.inFunction_of_mem_visits hin h
    · have hdeclared : (around.declare yes.declared).inFunction = true := hin
      exact no.inFunction_of_mem_visits hdeclared h
  | .loop condition body, h => by
    rcases List.mem_append.mp h with h | h
    · rw [condition.around_of_mem_visits h, hin]
    · exact body.inFunction_of_mem_visits hin h
  | .function site name params body, h =>
    Stmt.inFunction_of_mem_allVisits
      (show ((around.declare [name.lexeme]).inBody site params body).inFunction = true from rfl) body h
  | .return _ none, h => by simp [Stmt.visits] at h
  | .return _ (some value), h => by rw [value.around_of_mem_visits h, hin]
  | .endMarker, h => by simp [Stmt.visits] at h
  | .foreign _, h => by simp [Stmt.visits] at h

theorem Stmt.inFunction_of_mem_allVisits {around : Surroundings} {v : Visit}
    (hin : around.inFunction = true) :
    ∀ ss : List (Stmt Site), v ∈ Stmt.allVisits around ss → v.around.inFunction = true
  | [], h => by simp [Stmt.allVisits] at h
  | s :: ss, h => by
    rcases List.mem_append.mp h with h | h
    · exact s.inFunction_of_mem_visits hin h
    · have hdeclared : (around.declare s.declared).inFunction = true := hin
      exact Stmt.inFunction_of_mem_allVisits hdeclared ss h

end

/-- References whose sites are numbers from one up to another, each used once. -/
structure Fresh (start stop : Site) (vs : List Visit) : Prop where
  le : start ≤ stop
  nodup : (vs.map Visit.site).Nodup
  lower : ∀ v ∈ vs, start ≤ v.site
  upper : ∀ v ∈ vs, v.site < stop

namespace Fresh
variable {start middle stop : Site} {vs more : List Visit}

theorem nil (start : Site) : Fresh start start [] :=
  ⟨Nat.le_refl start, List.nodup_nil, by simp, by simp⟩

theorem append (h : Fresh start middle vs) (h' : Fresh middle stop more) :
    Fresh start stop (vs ++ more) where
  le := Nat.le_trans h.le h'.le
  nodup := by
    rw [List.map_append]
    refine h.nodup.append h'.nodup fun site hs hm => ?_
    obtain ⟨v, hv, rfl⟩ := List.mem_map.mp hs
    obtain ⟨w, hw, hsite⟩ := List.mem_map.mp hm
    have hlow := h'.lower w hw
    rw [hsite] at hlow
    exact Nat.not_lt.mpr hlow (h.upper v hv)
  lower := by
    intro v hv
    rcases List.mem_append.mp hv with hm | hm
    · exact h.lower v hm
    · exact Nat.le_trans h.le (h'.lower v hm)
  upper := by
    intro v hv
    rcases List.mem_append.mp hv with hm | hm
    · exact Nat.lt_of_lt_of_le (h.upper v hm) h'.le
    · exact h'.upper v hm

/-- The number in front of the others may also be used behind them. -/
theorem concat (h : Fresh (start + 1) stop vs) {v : Visit} (hv : v.site = start) :
    Fresh start stop (vs ++ [v]) where
  le := Nat.le_of_succ_le h.le
  nodup := by
    rw [List.map_append]
    refine h.nodup.append (List.nodup_singleton _) fun site hs hm => ?_
    obtain ⟨w, hw, rfl⟩ := List.mem_map.mp hs
    have hlow := h.lower w hw
    rw [List.mem_singleton.mp hm, hv] at hlow
    exact Nat.not_succ_le_self start hlow
  lower := by
    intro w hw
    rcases List.mem_append.mp hw with hm | hm
    · exact Nat.le_of_succ_le (h.lower w hm)
    · obtain rfl := List.mem_singleton.mp hm
      exact Nat.le_of_eq hv.symm
  upper := by
    intro w hw
    rcases List.mem_append.mp hw with hm | hm
    · exact h.upper w hm
    · rw [List.mem_singleton.mp hm, hv]
      exact h.le

theorem weaken (h : Fresh (start + 1) stop vs) : Fresh start stop vs :=
  ⟨Nat.le_of_succ_le h.le, h.nodup, fun v hv => Nat.le_of_succ_le (h.lower v hv), h.upper⟩

end Fresh

mutual

/-- Numbering an expression gives its references the next sites, each its own. -/
theorem Expr.fresh_number {σ : Type} (around : Surroundings) :
    ∀ (e : Expr σ) (next : Site), Fresh next (e.number next).2 ((e.number next).1.visits around)
  | .literal _, next => .nil next
  | .grouping inner, next => inner.fresh_number around next
  | .unary _ operand, next => operand.fresh_number around next
  | .binary left _ right, next =>
    (left.fresh_number around next).append (right.fresh_number around _)
  | .logical left _ right, next =>
    (left.fresh_number around next).append (right.fresh_number around _)
  | .variable _ _, next => (Fresh.nil (next + 1)).concat rfl
  | .assignment _ _ value, next => (value.fresh_number around (next + 1)).concat rfl
  | .call callee _ arguments, next =>
    (callee.fresh_number around next).append (Expr.fresh_numberAll around arguments _)
  | .foreign _, next => .nil next

theorem Expr.fresh_numberAll {σ : Type} (around : Surroundings) :
    ∀ (es : List (Expr σ)) (next : Site),
      Fresh next (Expr.numberAll es next).2 (Expr.allVisits around (Expr.numberAll es next).1)
  | [], next => .nil next
  | e :: es, next => (e.fresh_number around next).append (Expr.fresh_numberAll around es _)

end

mutual

/-- Numbering a statement gives its references the next sites, each its own. -/
theorem Stmt.fresh_number {σ : Type} :
    ∀ (s : Stmt σ) (around : Surroundings) (next : Site),
      Fresh next (s.number next).2 ((s.number next).1.visits around)
  | .expression value, around, next => value.fresh_number around next
  | .print value, around, next => value.fresh_number around next
  | .assert _ condition, around, next => condition.fresh_number around next
  | .variable _ none, _, next => .nil next
  | .variable _ (some initializer), _, next => initializer.fresh_number _ next
  | .block _ body, _, next => (Stmt.fresh_numberAll body _ (next + 1)).weaken
  | .conditional condition yes none, around, next =>
    (condition.fresh_number around next).append (yes.fresh_number around _)
  | .conditional condition yes (some no), around, next =>
    ((condition.fresh_number around next).append (yes.fresh_number around _)).append
      (no.fresh_number (around.declare (yes.number _).1.declared) _)
  | .loop condition body, around, next =>
    (condition.fresh_number around next).append (body.fresh_number around _)
  | .function _ _ _ body, _, next => (Stmt.fresh_numberAll body _ (next + 1)).weaken
  | .return _ none, _, next => .nil next
  | .return _ (some value), around, next => value.fresh_number around next
  | .endMarker, _, next => .nil next
  | .foreign _, _, next => .nil next

theorem Stmt.fresh_numberAll {σ : Type} :
    ∀ (ss : List (Stmt σ)) (around : Surroundings) (next : Site),
      Fresh next (Stmt.numberAll ss next).2
        (Stmt.allVisits around (Stmt.numberAll ss next).1)
  | [], _, next => .nil next
  | s :: ss, around, next =>
    (s.fresh_number around next).append
      (Stmt.fresh_numberAll ss (around.declare (s.number next).1.declared) _)

end

end Lox
