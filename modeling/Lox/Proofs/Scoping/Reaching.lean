import Lox.Proofs.Scoping.Resolution

/-!
# Where a walk is when it comes to a reference

The resolver forgets its scopes when it is through. This module says which walk it is that binds a
reference: the one that the resolver has become when it comes to the reference, and the blocks and
functions that it is inside then. Every reference of a statement that can be resolved is reached,
with the names and scopes that surround it.
-/
namespace Lox
open Outcome

namespace Resolver

/-- On its way through an expression the walk comes to a reference, and it is `there` when it binds
the reference. -/
inductive Reaches (site : Site) (there : Walk) : Nat → Expr Site → Walk → Prop where
  | «variable» {depth : Nat} {name : Token} : Reaches site there (depth + 1) (.variable site name) there
  | assignment {depth : Nat} {w : Walk} {name : Token} {value : Expr Site}
      (h : expression depth value w = .ok () there) :
      Reaches site there (depth + 1) (.assignment site name value) w
  | value {depth : Nat} {w : Walk} {other : Site} {name : Token} {value : Expr Site}
      (h : Reaches site there depth value w) :
      Reaches site there (depth + 1) (.assignment other name value) w
  | inner {depth : Nat} {w : Walk} {inner : Expr Site} (h : Reaches site there depth inner w) :
      Reaches site there (depth + 1) (.grouping inner) w
  | operand {depth : Nat} {w : Walk} {operator : Token} {operand : Expr Site}
      (h : Reaches site there depth operand w) :
      Reaches site there (depth + 1) (.unary operator operand) w
  | binaryLeft {depth : Nat} {w : Walk} {operator : Token} {left right : Expr Site}
      (h : Reaches site there depth left w) :
      Reaches site there (depth + 1) (.binary left operator right) w
  | binaryRight {depth : Nat} {w w' : Walk} {operator : Token} {left right : Expr Site}
      (before : expression depth left w = .ok () w') (h : Reaches site there depth right w') :
      Reaches site there (depth + 1) (.binary left operator right) w
  | logicalLeft {depth : Nat} {w : Walk} {operator : Token} {left right : Expr Site}
      (h : Reaches site there depth left w) :
      Reaches site there (depth + 1) (.logical left operator right) w
  | logicalRight {depth : Nat} {w w' : Walk} {operator : Token} {left right : Expr Site}
      (before : expression depth left w = .ok () w') (h : Reaches site there depth right w') :
      Reaches site there (depth + 1) (.logical left operator right) w
  | callee {depth : Nat} {w : Walk} {callee : Expr Site} {paren : Token}
      {arguments : List (Expr Site)} (h : Reaches site there depth callee w) :
      Reaches site there (depth + 1) (.call callee paren arguments) w
  | argument {depth : Nat} {w w' w'' : Walk} {callee argument : Expr Site} {paren : Token}
      {front back : List (Expr Site)} (before : expression depth callee w = .ok () w')
      (between : front.forM (expression depth) w' = .ok () w'')
      (h : Reaches site there depth argument w'') :
      Reaches site there (depth + 1) (.call callee paren (front ++ argument :: back)) w

/-- On its way through a statement inside some scopes the walk comes to a reference, and when it
binds the reference it is `there` and inside the scopes `path`. -/
inductive ReachesIn (site : Site) (there : Walk) (path : List Scope) :
    Nat → Stmt Site → Walk → List Scope → Prop where
  | expression {depth : Nat} {w : Walk} {value : Expr Site}
      (h : Reaches site there depth value w) :
      ReachesIn site there path (depth + 1) (.expression value) w path
  | print {depth : Nat} {w : Walk} {value : Expr Site} (h : Reaches site there depth value w) :
      ReachesIn site there path (depth + 1) (.print value) w path
  | assert {depth : Nat} {w : Walk} {keyword : Token} {condition : Expr Site}
      (h : Reaches site there depth condition w) :
      ReachesIn site there path (depth + 1) (.assert keyword condition) w path
  | initializer {depth : Nat} {w w' : Walk} {name : Token} {initializer : Expr Site}
      (before : declare name w = .ok () w')
      (h : Reaches site there depth initializer { w' with initializing := some name.lexeme }) :
      ReachesIn site there path (depth + 1) (.variable name (some initializer)) w path
  | block {depth : Nat} {w w' : Walk} {scopes : List Scope} {block : Site}
      {front back : List (Stmt Site)} {s : Stmt Site}
      (between : front.forM (statement depth) { w with scopes := [] :: w.scopes } = .ok () w')
      (h : ReachesIn site there path depth s w' (⟨block, [], front ++ s :: back⟩ :: scopes)) :
      ReachesIn site there path (depth + 1) (.block block (front ++ s :: back)) w scopes
  | condition {depth : Nat} {w : Walk} {condition : Expr Site} {yes : Stmt Site}
      {no : Option (Stmt Site)} (h : Reaches site there depth condition w) :
      ReachesIn site there path (depth + 1) (.conditional condition yes no) w path
  | yes {depth : Nat} {w w' : Walk} {scopes : List Scope} {condition : Expr Site} {yes : Stmt Site}
      {no : Option (Stmt Site)} (before : Resolver.expression depth condition w = .ok () w')
      (h : ReachesIn site there path depth yes w' scopes) :
      ReachesIn site there path (depth + 1) (.conditional condition yes no) w scopes
  | no {depth : Nat} {w w' w'' : Walk} {scopes : List Scope} {condition : Expr Site}
      {yes no : Stmt Site} (before : Resolver.expression depth condition w = .ok () w')
      (between : statement depth yes w' = .ok () w'')
      (h : ReachesIn site there path depth no w'' scopes) :
      ReachesIn site there path (depth + 1) (.conditional condition yes (some no)) w scopes
  | whileCondition {depth : Nat} {w : Walk} {condition : Expr Site} {body : Stmt Site}
      (h : Reaches site there depth condition w) :
      ReachesIn site there path (depth + 1) (.loop condition body) w path
  | whileBody {depth : Nat} {w w' : Walk} {scopes : List Scope} {condition : Expr Site}
      {body : Stmt Site} (before : Resolver.expression depth condition w = .ok () w')
      (h : ReachesIn site there path depth body w' scopes) :
      ReachesIn site there path (depth + 1) (.loop condition body) w scopes
  | function {depth : Nat} {w w' w'' w''' : Walk} {scopes : List Scope} {function : Site}
      {name : Token} {params : List Token} {front back : List (Stmt Site)} {s : Stmt Site}
      (before : declare name w = .ok () w')
      (declared : params.forM declare { w' with scopes := [] :: w'.scopes, inFunction := true } =
        .ok () w'')
      (between : front.forM (statement depth) w'' = .ok () w''')
      (h : ReachesIn site there path depth s w'''
        (⟨function, params, front ++ s :: back⟩ :: scopes)) :
      ReachesIn site there path (depth + 1) (.function function name params (front ++ s :: back)) w
        scopes
  | «return» {depth : Nat} {w : Walk} {keyword : Token} {value : Expr Site}
      (h : Reaches site there depth value w) :
      ReachesIn site there path (depth + 1) (.return keyword (some value)) w path

end Resolver

theorem Expr.mem_of_mem_allVisits {around : Surroundings} {v : Visit} {es : List (Expr Site)}
    (h : v ∈ Expr.allVisits around es) : ∃ front e back, es = front ++ e :: back ∧
      v ∈ e.visits around := by
  induction es with
  | nil => cases h
  | cons e es ih =>
    rcases List.mem_append.mp h with h | h
    · exact ⟨[], e, es, rfl, h⟩
    · obtain ⟨front, f, back, rfl, hf⟩ := ih h
      exact ⟨e :: front, f, back, rfl, hf⟩

theorem Stmt.mem_of_mem_allVisits {around : Surroundings} {v : Visit} {ss : List (Stmt Site)}
    (h : v ∈ Stmt.allVisits around ss) : ∃ front s back, ss = front ++ s :: back ∧
      v ∈ s.visits (around.declare (Stmt.allDeclared front)) := by
  induction ss generalizing around with
  | nil => cases h
  | cons s ss ih =>
    rcases List.mem_append.mp h with h | h
    · exact ⟨[], s, ss, rfl, by simpa using h⟩
    · obtain ⟨front, t, back, rfl, ht⟩ := ih h
      refine ⟨s :: front, t, back, rfl, ?_⟩
      rw [Stmt.allDeclared_cons, Surroundings.declare_append]
      exact ht

namespace Resolver
variable {depth : Nat} {w w' : Walk} {v : Visit}

/-- The walk comes to every reference of an expression, with the names that surround it. -/
theorem exists_reaches (path : List Scope) {e : Expr Site} (h : expression depth e w = .ok () w')
    (hv : v ∈ e.visits (w.around path)) :
    ∃ there, Reaches v.site there depth e w ∧ there.around path = v.around := by
  induction depth generalizing e w w' with
  | zero => cases h
  | succ depth ih =>
    cases e with
    | literal value => cases hv
    | grouping inner =>
      obtain ⟨there, hreach, haround⟩ := ih (e := inner) h hv
      exact ⟨there, .inner hreach, haround⟩
    | unary operator operand =>
      obtain ⟨there, hreach, haround⟩ := ih (e := operand) h hv
      exact ⟨there, .operand hreach, haround⟩
    | binary left operator right =>
      obtain ⟨_, t, hl, hr⟩ := bind_eq_ok.mp h
      rcases List.mem_append.mp hv with hv | hv
      · obtain ⟨there, hreach, haround⟩ := ih hl hv
        exact ⟨there, .binaryLeft hreach, haround⟩
      · have ht := expression_eq_ok path hl
        obtain ⟨there, hreach, haround⟩ := ih hr (by rw [ht]; exact hv)
        exact ⟨there, .binaryRight hl hreach, haround⟩
    | logical left operator right =>
      obtain ⟨_, t, hl, hr⟩ := bind_eq_ok.mp h
      rcases List.mem_append.mp hv with hv | hv
      · obtain ⟨there, hreach, haround⟩ := ih hl hv
        exact ⟨there, .logicalLeft hreach, haround⟩
      · have ht := expression_eq_ok path hl
        obtain ⟨there, hreach, haround⟩ := ih hr (by rw [ht]; exact hv)
        exact ⟨there, .logicalRight hl hreach, haround⟩
    | «variable» site name =>
      obtain rfl := List.mem_singleton.mp hv
      exact ⟨w, .variable, rfl⟩
    | assignment site name value =>
      obtain ⟨_, t, hvalue, -⟩ := bind_eq_ok.mp h
      rcases List.mem_append.mp hv with hv | hv
      · obtain ⟨there, hreach, haround⟩ := ih hvalue hv
        exact ⟨there, .value hreach, haround⟩
      · obtain rfl := List.mem_singleton.mp hv
        refine ⟨t, .assignment hvalue, ?_⟩
        rw [expression_eq_ok path hvalue, Walk.around_behind]
    | call callee paren arguments =>
      obtain ⟨_, t, hc, ha⟩ := bind_eq_ok.mp h
      rcases List.mem_append.mp hv with hv | hv
      · obtain ⟨there, hreach, haround⟩ := ih hc hv
        exact ⟨there, .callee hreach, haround⟩
      · have ht := expression_eq_ok path hc
        obtain ⟨front, argument, back, rfl, hargument⟩ := Expr.mem_of_mem_allVisits hv
        obtain ⟨u, hfront, hrest⟩ := forM_append_eq_ok.mp ha
        obtain ⟨_, hhere, -⟩ := forM_cons_eq_ok.mp hrest
        have hu := forM_expression_eq_ok path (fun h => expression_eq_ok path h) hfront
        obtain ⟨there, hreach, haround⟩ := ih hhere (by rw [hu, ht]; exact hargument)
        exact ⟨there, .argument hc hfront hreach, haround⟩
    | «foreign» what => cases hv

/-- Inside a list of statements the walk comes to one of them behind those before it. -/
theorem forM_statement_reaches (path : List Scope) {ss : List (Stmt Site)}
    (hinit : w.initializing = none) (h : ss.forM (statement depth) w = .ok () w')
    (hv : v ∈ Stmt.allVisits (w.around path) ss) :
    ∃ front s back t t', ss = front ++ s :: back ∧ front.forM (statement depth) w = .ok () t ∧
      statement depth s t = .ok () t' ∧ t.initializing = none ∧ v ∈ s.visits (t.around path) := by
  obtain ⟨front, s, back, rfl, hs⟩ := Stmt.mem_of_mem_allVisits hv
  obtain ⟨t, hfront, hrest⟩ := forM_append_eq_ok.mp h
  obtain ⟨t', hhere, -⟩ := forM_cons_eq_ok.mp hrest
  have ht := forM_statement_eq_ok path (fun hinit h => statement_eq_ok path hinit h) hinit hfront
  refine ⟨front, s, back, t, t', rfl, hfront, hhere, ?_, ?_⟩
  · rw [ht]
    exact hinit
  · rw [ht]
    exact hs

/-- The walk comes to every reference of a statement, inside the scopes that surround it and with
the names that these have declared. -/
theorem exists_reachesIn (path : List Scope) {s : Stmt Site} (hinit : w.initializing = none)
    (h : statement depth s w = .ok () w') (hv : v ∈ s.visits (w.around path)) :
    ∃ there, ReachesIn v.site there v.around.path depth s w path ∧
      there.scopes = v.around.scopes := by
  induction depth generalizing s w w' path with
  | zero => cases h
  | succ depth ih =>
    -- A reference in an expression of the statement itself has the scopes of the statement.
    have hhere : ∀ {e : Expr Site} {u u' : Walk}, Resolver.expression depth e u = .ok () u' →
        v ∈ e.visits (u.around path) → ∃ there, Reaches v.site there depth e u ∧
          there.scopes = v.around.scopes ∧ v.around.path = path := by
      intro e u u' he hve
      obtain ⟨there, hreach, haround⟩ := exists_reaches path he hve
      exact ⟨there, hreach, by rw [← haround]; rfl, by rw [← haround]; rfl⟩
    cases s with
    | expression value =>
      obtain ⟨there, hreach, hscopes, hpath⟩ := hhere h hv
      exact ⟨there, hpath ▸ .expression hreach, hscopes⟩
    | print value =>
      obtain ⟨there, hreach, hscopes, hpath⟩ := hhere h hv
      exact ⟨there, hpath ▸ .print hreach, hscopes⟩
    | assert keyword condition =>
      obtain ⟨there, hreach, hscopes, hpath⟩ := hhere h hv
      exact ⟨there, hpath ▸ .assert hreach, hscopes⟩
    | «variable» name initializer =>
      cases initializer with
      | none => cases hv
      | some initializer =>
        obtain ⟨_, t, hd, hi⟩ := bind_eq_ok.mp h
        simp only [inInitializer, modify_bind_apply] at hi
        obtain ⟨_, u, hi, -⟩ := bind_eq_ok.mp hi
        obtain ⟨there, hreach, hscopes, hpath⟩ := hhere hi (by rw [declare_eq_ok hd]; exact hv)
        exact ⟨there, hpath ▸ .initializer hd hreach, hscopes⟩
    | block site body =>
      simp only [statement, inScope, modify_bind_apply] at h
      obtain ⟨_, t, hb, -⟩ := bind_eq_ok.mp h
      obtain ⟨front, s, back, u, u', rfl, hfront, hs, hu, hvs⟩ :=
        forM_statement_reaches (⟨site, [], body⟩ :: path) (by exact hinit) hb hv
      obtain ⟨there, hreach, hscopes⟩ := ih _ hu hs hvs
      exact ⟨there, .block hfront hreach, hscopes⟩
    | conditional condition yes no =>
      obtain ⟨_, t, hc, hr⟩ := bind_eq_ok.mp h
      obtain ⟨_, u, hy, hn⟩ := bind_eq_ok.mp hr
      have ht := expression_eq_ok path hc
      have htinit : t.initializing = none := by rw [ht]; exact hinit
      have hu := statement_eq_ok path htinit hy
      have hcases : v ∈ condition.visits (w.around path) ∨ v ∈ yes.visits (t.around path) ∨
          ∃ n, no = some n ∧ v ∈ n.visits (u.around path) := by
        rw [hu, ht]
        cases no with
        | none => exact (List.mem_append.mp hv).imp_right .inl
        | some no =>
          rcases List.mem_append.mp hv with hv | hv
          · exact (List.mem_append.mp hv).imp_right .inl
          · exact .inr (.inr ⟨no, rfl, hv⟩)
      rcases hcases with hv | hv | ⟨no, rfl, hvno⟩
      · obtain ⟨there, hreach, hscopes, hpath⟩ := hhere hc hv
        exact ⟨there, hpath ▸ .condition hreach, hscopes⟩
      · obtain ⟨there, hreach, hscopes⟩ := ih path htinit hy hv
        exact ⟨there, .yes hc hreach, hscopes⟩
      · obtain ⟨there, hreach, hscopes⟩ := ih path (by rw [hu]; exact htinit) hn hvno
        exact ⟨there, .no hc hy hreach, hscopes⟩
    | loop condition body =>
      obtain ⟨_, t, hc, hb⟩ := bind_eq_ok.mp h
      have ht := expression_eq_ok path hc
      rcases List.mem_append.mp hv with hv | hv
      · obtain ⟨there, hreach, hscopes, hpath⟩ := hhere hc hv
        exact ⟨there, hpath ▸ .whileCondition hreach, hscopes⟩
      · have hvb : v ∈ body.visits (t.around path) := by rw [ht]; exact hv
        obtain ⟨there, hreach, hscopes⟩ := ih path (by rw [ht]; exact hinit) hb hvb
        exact ⟨there, .whileBody hc hreach, hscopes⟩
    | function site name params body =>
      obtain ⟨_, t, hd, hf⟩ := bind_eq_ok.mp h
      obtain rfl := declare_eq_ok hd
      simp only [inFunction, get_bind_apply, inScope, modify_bind_apply] at hf
      obtain ⟨_, t, hb, -⟩ := bind_eq_ok.mp hf
      simp only [modify_bind_apply] at hb
      obtain ⟨_, t, hp, hb⟩ := bind_eq_ok.mp hb
      obtain ⟨_, u, hb, -⟩ := bind_eq_ok.mp hb
      have ht := forM_declare_eq_ok hp
      obtain ⟨front, s, back, u, u', rfl, hfront, hs, hu, hvs⟩ :=
        forM_statement_reaches (⟨site, params, body⟩ :: path) (by rw [ht]; exact hinit) hb
          (by rw [ht]; exact hv)
      obtain ⟨there, hreach, hscopes⟩ := ih _ hu hs hvs
      exact ⟨there, .function hd hp hfront hreach, hscopes⟩
    | «return» keyword value =>
      cases value with
      | none => cases hv
      | some value =>
        obtain ⟨there, hreach, hscopes, hpath⟩ := hhere h hv
        exact ⟨there, hpath ▸ .return hreach, hscopes⟩
    | endMarker => cases hv
    | «foreign» what => cases hv

end Resolver

end Lox
