import Lox.Proofs.Scoping.Typing

/-!
# Programs in which nothing is shadowed

A program shadows nothing when each name is declared in at most one scope, and when no scope
declares a name behind a reference to it. Both are said of the occurrences of names in each scope, in
the order of the text; the globals, to which the clock belongs from the beginning, are a scope of
their own. In such a program, the scope that a reference belongs to can be told from its name.
-/
namespace Lox

/-- A name in a scope: a reference to it, which may stand in a scope further inside, or its
declaration in that scope. -/
inductive Occurrence where
  | reference (name : String)
  | declaration (name : String)
  deriving DecidableEq

/-- Whether the name is referred to. -/
def Occurrence.isReference : Occurrence → Bool
  | reference _ => true
  | declaration _ => false

/-- What a scope inside another one means to that one: references only. -/
def referencesOf (occurrences : List Occurrence) : List Occurrence :=
  occurrences.filter Occurrence.isReference

mutual

/-- The names that an expression refers to. -/
def Expr.names {σ : Type} : Expr σ → List String
  | .literal _ | .foreign _ => []
  | .grouping inner => inner.names
  | .unary _ operand => operand.names
  | .binary left _ right | .logical left _ right => left.names ++ right.names
  | .variable _ name => [name.lexeme]
  | .assignment _ name value => name.lexeme :: value.names
  | .call callee _ arguments => callee.names ++ Expr.allNames arguments

/-- The names that expressions refer to. -/
def Expr.allNames {σ : Type} : List (Expr σ) → List String
  | [] => []
  | e :: es => e.names ++ Expr.allNames es

end

/-- The references of an expression. -/
def Expr.occurrences {σ : Type} (e : Expr σ) : List Occurrence :=
  e.names.map .reference

mutual

/-- The occurrences of names in a statement, seen from the scope it stands in. -/
def Stmt.occurrences {σ : Type} : Stmt σ → List Occurrence
  | .expression value | .print value | .assert _ value | .return _ (some value) => value.occurrences
  | .variable name none => [.declaration name.lexeme]
  | .variable name (some initializer) => .declaration name.lexeme :: initializer.occurrences
  | .block _ body => referencesOf (Stmt.allOccurrences body)
  | .conditional condition yes none => condition.occurrences ++ yes.occurrences
  | .conditional condition yes (some no) =>
    condition.occurrences ++ yes.occurrences ++ no.occurrences
  | .loop condition body => condition.occurrences ++ body.occurrences
  | .function _ name _ body =>
    .declaration name.lexeme :: referencesOf (Stmt.allOccurrences body)
  | .return _ none | .endMarker | .foreign _ => []

/-- The occurrences of names in statements, seen from the scope they stand in. -/
def Stmt.allOccurrences {σ : Type} : List (Stmt σ) → List Occurrence
  | [] => []
  | s :: ss => s.occurrences ++ Stmt.allOccurrences ss

end

/-- The occurrences of names in parameters and body of a function, or in a block. -/
def Stmt.bodyOccurrences {σ : Type} (params : List Token) (body : List (Stmt σ)) :
    List Occurrence :=
  params.map (fun param => .declaration param.lexeme) ++ Stmt.allOccurrences body

mutual

/-- The occurrences of names in each of the scopes inside a statement, outer scopes first. -/
def Stmt.inside {σ : Type} : Stmt σ → List (List Occurrence)
  | .block _ body => Stmt.bodyOccurrences [] body :: Stmt.allInside body
  | .conditional _ yes none => yes.inside
  | .conditional _ yes (some no) => yes.inside ++ no.inside
  | .loop _ body => body.inside
  | .function _ _ params body => Stmt.bodyOccurrences params body :: Stmt.allInside body
  | .expression _ | .print _ | .assert _ _ | .variable _ _ | .return _ _ | .endMarker
  | .foreign _ => []

/-- The occurrences of names in each of the scopes inside statements. -/
def Stmt.allInside {σ : Type} : List (Stmt σ) → List (List Occurrence)
  | [] => []
  | s :: ss => s.inside ++ Stmt.allInside ss

end

/-- No declaration of a name stands behind a reference to it, unless another stands before that. -/
def Orderly (occurrences : List Occurrence) : Prop :=
  ∀ before name after, occurrences = before ++ .reference name :: after →
    .declaration name ∈ after → .declaration name ∈ before

/-- The globals: the clock, and what stands outside of all other scopes. -/
def globalOccurrences {σ : Type} (program : List (Stmt σ)) : List Occurrence :=
  .declaration "clock" :: Stmt.allOccurrences program

/-- A program in which each name is declared in at most one scope, and in which no local name is
referred to in its scope before its declaration. -/
structure Unshadowed {σ : Type} (program : List (Stmt σ)) : Prop where
  once : (globalOccurrences program :: Stmt.allInside program).Pairwise fun scope other =>
    ∀ name, .declaration name ∈ scope → .declaration name ∉ other
  orderly : ∀ scope ∈ Stmt.allInside program, Orderly scope

mutual

theorem Expr.names_number {σ : Type} : ∀ (e : Expr σ) (next : Site), (e.number next).1.names = e.names
  | .literal _, _ | .foreign _, _ | .variable _ _, _ => rfl
  | .grouping inner, next => inner.names_number next
  | .unary _ operand, next => operand.names_number next
  | .binary left _ right, next | .logical left _ right, next =>
    congrArg₂ (· ++ ·) (left.names_number next) (right.names_number _)
  | .assignment _ name value, next => congrArg (name.lexeme :: ·) (value.names_number (next + 1))
  | .call callee _ arguments, next =>
    congrArg₂ (· ++ ·) (callee.names_number next) (Expr.allNames_number arguments _)

theorem Expr.allNames_number {σ : Type} :
    ∀ (es : List (Expr σ)) (next : Site), Expr.allNames (Expr.numberAll es next).1 = Expr.allNames es
  | [], _ => rfl
  | e :: es, next => congrArg₂ (· ++ ·) (e.names_number next) (Expr.allNames_number es _)

end

/-- The references of an expression do not depend on the numbers of its sites. -/
theorem Expr.occurrences_number {σ : Type} (e : Expr σ) (next : Site) :
    (e.number next).1.occurrences = e.occurrences :=
  congrArg (List.map Occurrence.reference) (e.names_number next)

mutual

/-- The occurrences of names do not depend on the numbers of sites. -/
theorem Stmt.occurrences_number {σ : Type} :
    ∀ (s : Stmt σ) (next : Site), (s.number next).1.occurrences = s.occurrences
  | .expression value, next | .print value, next | .assert _ value, next
  | .return _ (some value), next => value.occurrences_number next
  | .variable _ none, _ | .return _ none, _ | .endMarker, _ | .foreign _, _ => rfl
  | .variable name (some initializer), next =>
    congrArg (List.cons (Occurrence.declaration name.lexeme)) (initializer.occurrences_number next)
  | .block _ body, next => congrArg referencesOf (Stmt.allOccurrences_number body (next + 1))
  | .conditional condition yes none, next =>
    congrArg₂ (· ++ ·) (condition.occurrences_number next) (yes.occurrences_number _)
  | .conditional condition yes (some no), next =>
    congrArg₂ (· ++ ·)
      (congrArg₂ (· ++ ·) (condition.occurrences_number next) (yes.occurrences_number _))
      (no.occurrences_number _)
  | .loop condition body, next =>
    congrArg₂ (· ++ ·) (condition.occurrences_number next) (body.occurrences_number _)
  | .function _ name _ body, next => congrArg (List.cons (Occurrence.declaration name.lexeme))
      (congrArg referencesOf (Stmt.allOccurrences_number body (next + 1)))

theorem Stmt.allOccurrences_number {σ : Type} :
    ∀ (ss : List (Stmt σ)) (next : Site),
      Stmt.allOccurrences (Stmt.numberAll ss next).1 = Stmt.allOccurrences ss
  | [], _ => rfl
  | s :: ss, next =>
    congrArg₂ (· ++ ·) (s.occurrences_number next) (Stmt.allOccurrences_number ss _)

end

mutual

/-- The scopes inside do not depend on the numbers of sites. -/
theorem Stmt.inside_number {σ : Type} :
    ∀ (s : Stmt σ) (next : Site), (s.number next).1.inside = s.inside
  | .expression _, _ | .print _, _ | .assert _ _, _ | .return _ (some _), _
  | .variable _ none, _ | .return _ none, _ | .endMarker, _ | .foreign _, _
  | .variable _ (some _), _ => rfl
  | .block _ body, next =>
    congrArg₂ List.cons (congrArg _ (Stmt.allOccurrences_number body (next + 1)))
      (Stmt.allInside_number body (next + 1))
  | .conditional _ yes none, _ => yes.inside_number _
  | .conditional _ yes (some no), _ =>
    congrArg₂ (· ++ ·) (yes.inside_number _) (no.inside_number _)
  | .loop _ body, _ => body.inside_number _
  | .function _ _ _ body, next =>
    congrArg₂ List.cons (congrArg _ (Stmt.allOccurrences_number body (next + 1)))
      (Stmt.allInside_number body (next + 1))

theorem Stmt.allInside_number {σ : Type} :
    ∀ (ss : List (Stmt σ)) (next : Site),
      Stmt.allInside (Stmt.numberAll ss next).1 = Stmt.allInside ss
  | [], _ => rfl
  | s :: ss, next => congrArg₂ (· ++ ·) (s.inside_number next) (Stmt.allInside_number ss _)

end

/-- The scopes inside a statement are among those inside its program. -/
theorem Stmt.inside_sublist {σ : Type} {s : Stmt σ} {ss : List (Stmt σ)} (h : s ∈ ss) :
    s.inside.Sublist (Stmt.allInside ss) := by
  induction ss with
  | nil => cases h
  | cons t ss ih =>
    rcases List.mem_cons.mp h with rfl | h
    · exact List.sublist_append_left ..
    · exact (ih h).trans (List.sublist_append_right ..)

theorem Expr.mem_occurrences {σ : Type} {e : Expr σ} {o : Occurrence} (h : o ∈ e.occurrences) :
    o.isReference = true := by
  obtain ⟨name, -, rfl⟩ := List.mem_map.mp h
  rfl

theorem declaration_not_mem_expression {σ : Type} {e : Expr σ} {name : String} :
    Occurrence.declaration name ∉ e.occurrences := by
  intro h
  cases e.mem_occurrences h

theorem declaration_not_mem_referencesOf {part : List Occurrence} {name : String} :
    Occurrence.declaration name ∉ referencesOf part := by
  intro h
  cases (List.mem_filter.mp h).2

@[simp] theorem referencesOf_append (part more : List Occurrence) :
    referencesOf (part ++ more) = referencesOf part ++ referencesOf more :=
  List.filter_append ..

@[simp] theorem referencesOf_referencesOf (part : List Occurrence) :
    referencesOf (referencesOf part) = referencesOf part := by
  simp [referencesOf]

/-- The declarations among the occurrences of names in a statement are those of the statement. -/
theorem Stmt.declaration_mem {σ : Type} {name : String} :
    ∀ s : Stmt σ, .declaration name ∈ s.occurrences ↔ name ∈ s.declared
  | .expression value | .print value | .assert _ value | .return _ (some value) => by
    simp [Stmt.occurrences, Stmt.declared, declaration_not_mem_expression]
  | .variable other none => by simp [Stmt.occurrences, Stmt.declared]
  | .variable other (some initializer) => by
    simp [Stmt.occurrences, Stmt.declared, declaration_not_mem_expression]
  | .block _ body => by simp [Stmt.occurrences, Stmt.declared, declaration_not_mem_referencesOf]
  | .conditional condition yes none => by
    simp [Stmt.occurrences, Stmt.declared, declaration_not_mem_expression, yes.declaration_mem]
  | .conditional condition yes (some no) => by
    simp [Stmt.occurrences, Stmt.declared, declaration_not_mem_expression, yes.declaration_mem,
      no.declaration_mem]
  | .loop condition body => by
    simp [Stmt.occurrences, Stmt.declared, declaration_not_mem_expression, body.declaration_mem]
  | .function _ other _ body => by
    simp [Stmt.occurrences, Stmt.declared, declaration_not_mem_referencesOf]
  | .return _ none | .endMarker | .foreign _ => by simp [Stmt.occurrences, Stmt.declared]

theorem Stmt.declaration_mem_all {σ : Type} {name : String} {ss : List (Stmt σ)} :
    .declaration name ∈ Stmt.allOccurrences ss ↔ name ∈ Stmt.allDeclared ss := by
  induction ss with
  | nil => simp [Stmt.allOccurrences]
  | cons s ss ih => simp [Stmt.allOccurrences, s.declaration_mem, ih]

/-- The occurrences of names in a scope. -/
def Scope.occurrences (scope : Scope) : List Occurrence :=
  Stmt.bodyOccurrences scope.params scope.body

theorem Scope.declaration_mem {scope : Scope} {name : String} :
    .declaration name ∈ scope.occurrences ↔ name ∈ scope.names := by
  simp [Scope.occurrences, Stmt.bodyOccurrences, Scope.names, Stmt.declaration_mem_all]

/-- Some occurrences stand in a scope behind those declarations that have made `names`. -/
def Scope.Holds (part : List Occurrence) (names : List String) (scope : Scope) : Prop :=
  ∃ before after, scope.occurrences = before ++ part ++ after ∧
    ∀ name, name ∈ names ↔ .declaration name ∈ before

/-- Some occurrences stand in the innermost one of some scopes, and their references in those around
it, all behind what has been declared so far. -/
def Surroundings.Hold (around : Surroundings) (part : List Occurrence) : Prop :=
  match around.scopes, around.path with
  | [], [] => True
  | names :: scopes, scope :: path => scope.Holds part names ∧
    List.Forall₂ (Scope.Holds (referencesOf part)) scopes path
  | _, _ => False

theorem Scope.Holds.left {scope : Scope} {part more : List Occurrence} {names : List String}
    (h : scope.Holds (part ++ more) names) : scope.Holds part names := by
  obtain ⟨before, after, heq, hnames⟩ := h
  exact ⟨before, more ++ after, by simp [heq], hnames⟩

theorem Scope.Holds.right {scope : Scope} {part more : List Occurrence} {names : List String}
    (h : scope.Holds (part ++ more) names) (declared : List String)
    (hdeclared : ∀ name, name ∈ declared ↔ .declaration name ∈ part) :
    scope.Holds more (declared.reverse ++ names) := by
  obtain ⟨before, after, heq, hnames⟩ := h
  refine ⟨before ++ part, after, by simp [heq], fun name => ?_⟩
  simp [hnames, hdeclared, or_comm]

namespace Surroundings.Hold
variable {around : Surroundings} {part more : List Occurrence}

theorem left (h : around.Hold (part ++ more)) : around.Hold part := by
  obtain ⟨path, scopes, inFunction⟩ := around
  cases scopes <;> cases path
  · trivial
  · exact h
  · exact h
  · obtain ⟨hinner, houter⟩ := h
    refine ⟨hinner.left, houter.imp fun names scope hholds => ?_⟩
    rw [referencesOf_append] at hholds
    exact hholds.left

theorem right (h : around.Hold (part ++ more)) {declared : List String}
    (hdeclared : ∀ name, name ∈ declared ↔ .declaration name ∈ part) :
    (around.declare declared).Hold more := by
  obtain ⟨path, scopes, inFunction⟩ := around
  cases scopes <;> cases path
  · trivial
  · exact h
  · exact h
  · obtain ⟨hinner, houter⟩ := h
    refine ⟨hinner.right declared hdeclared, houter.imp fun names scope hholds => ?_⟩
    rw [referencesOf_append] at hholds
    simpa using hholds.right [] (by simp [declaration_not_mem_referencesOf])

/-- Behind references nothing more has been declared. -/
theorem right_of_references (h : around.Hold (part ++ more))
    (hpart : ∀ o ∈ part, o.isReference = true) : around.Hold more := by
  have hnone : ∀ name, name ∈ ([] : List String) ↔ .declaration name ∈ part := by
    intro name
    refine ⟨fun h => by simp at h, fun h => ?_⟩
    cases hpart _ h
  simpa using h.right hnone

/-- Inside a scope that has declared its parameters. -/
theorem inside {body : List (Stmt Site)}
    (h : around.Hold (referencesOf (Stmt.allOccurrences body))) (site : Site) (params : List Token)
    (inFunction : Bool) :
    Surroundings.Hold ⟨⟨site, params, body⟩ :: around.path,
      declareIn (params.map (·.lexeme)) ([] :: around.scopes), inFunction⟩
      (Stmt.allOccurrences body) := by
  obtain ⟨path, scopes, inFunction⟩ := around
  refine ⟨⟨params.map fun param => .declaration param.lexeme, [], ?_, ?_⟩, ?_⟩
  · simp [Scope.occurrences, Stmt.bodyOccurrences]
  · simp
  · cases scopes <;> cases path
    · exact .nil
    · exact h.elim
    · exact h.elim
    · obtain ⟨hinner, houter⟩ := h
      rw [referencesOf_referencesOf] at houter
      exact .cons hinner houter

/-- Each of some references stands where they all stand. -/
theorem reference (h : around.Hold part) (hpart : ∀ o ∈ part, o.isReference = true)
    {o : Occurrence} (ho : o ∈ part) : around.Hold [o] := by
  obtain ⟨before, after, rfl⟩ := List.append_of_mem ho
  have hbefore : ∀ p ∈ before, p.isReference = true :=
    fun p hp => hpart p (List.mem_append_left _ hp)
  exact ((h.right_of_references hbefore : around.Hold ([o] ++ after))).left

end Surroundings.Hold

mutual

theorem Expr.name_mem_of_mem_visits {around : Surroundings} {v : Visit} :
    ∀ e : Expr Site, v ∈ e.visits around → v.name.lexeme ∈ e.names
  | .literal _, h | .foreign _, h => by simp [Expr.visits] at h
  | .grouping inner, h => inner.name_mem_of_mem_visits h
  | .unary _ operand, h => operand.name_mem_of_mem_visits h
  | .binary left _ right, h | .logical left _ right, h =>
    List.mem_append.mpr ((List.mem_append.mp h).imp left.name_mem_of_mem_visits
      right.name_mem_of_mem_visits)
  | .variable site name, h => by
    obtain rfl := List.mem_singleton.mp h
    exact List.mem_cons_self
  | .assignment site name value, h => by
    rcases List.mem_append.mp h with h | h
    · exact List.mem_cons_of_mem _ (value.name_mem_of_mem_visits h)
    · obtain rfl := List.mem_singleton.mp h
      exact List.mem_cons_self
  | .call callee _ arguments, h =>
    List.mem_append.mpr ((List.mem_append.mp h).imp callee.name_mem_of_mem_visits
      (Expr.name_mem_of_mem_allVisits arguments))

theorem Expr.name_mem_of_mem_allVisits {around : Surroundings} {v : Visit} :
    ∀ es : List (Expr Site), v ∈ Expr.allVisits around es → v.name.lexeme ∈ Expr.allNames es
  | [], h => by simp [Expr.allVisits] at h
  | e :: es, h =>
    List.mem_append.mpr ((List.mem_append.mp h).imp e.name_mem_of_mem_visits
      (Expr.name_mem_of_mem_allVisits es))

end

/-- The occurrences of names in the scopes around a place, outer scopes first. -/
def Surroundings.occurrences (around : Surroundings) : List (List Occurrence) :=
  (around.path.map Scope.occurrences).reverse

@[simp] theorem Surroundings.occurrences_declare (around : Surroundings) (names : List String) :
    (around.declare names).occurrences = around.occurrences := rfl

/-- A reference stands in its scopes, which are among those of a program. -/
structure Visit.Stands (scopes : List (List Occurrence)) (v : Visit) : Prop where
  hold : v.around.Hold [.reference v.name.lexeme]
  sublist : v.around.occurrences.Sublist scopes

section Standing
variable {scopes : List (List Occurrence)} {v : Visit}

theorem Expr.stands_of_mem_visits {around : Surroundings} {e : Expr Site}
    (hhold : around.Hold e.occurrences) (hsublist : around.occurrences.Sublist scopes)
    (hv : v ∈ e.visits around) : v.Stands scopes := by
  obtain rfl := e.around_of_mem_visits hv
  refine ⟨hhold.reference (fun o ho => e.mem_occurrences ho) ?_, hsublist⟩
  exact List.mem_map_of_mem (e.name_mem_of_mem_visits hv)

mutual

/-- The references of a statement stand in their scopes. -/
theorem Stmt.stands_of_mem_visits {around : Surroundings} :
    ∀ s : Stmt Site, around.Hold s.occurrences →
      (around.occurrences ++ s.inside).Sublist scopes → v ∈ s.visits around → v.Stands scopes
  | .expression value, hhold, hsub, hv | .print value, hhold, hsub, hv
  | .assert _ value, hhold, hsub, hv | .return _ (some value), hhold, hsub, hv =>
    value.stands_of_mem_visits hhold ((List.sublist_append_left ..).trans hsub) hv
  | .variable _ none, _, _, hv | .return _ none, _, _, hv | .endMarker, _, _, hv
  | .foreign _, _, _, hv => by simp [Stmt.visits] at hv
  | .variable name (some initializer), hhold, hsub, hv => by
    have hwhole : around.Hold ([.declaration name.lexeme] ++ initializer.occurrences) := hhold
    have hdeclared : (around.declare [name.lexeme]).Hold initializer.occurrences :=
      hwhole.right (by simp)
    exact initializer.stands_of_mem_visits hdeclared ((List.sublist_append_left ..).trans hsub) hv
  | .block site body, hhold, hsub, hv => by
    have hinside : (around.inBlock site body).Hold (Stmt.allOccurrences body) :=
      Surroundings.Hold.inside hhold site [] around.inFunction
    refine Stmt.stands_of_mem_allVisits body hinside ?_ hv
    simpa [Surroundings.occurrences, Surroundings.inBlock, Scope.occurrences, Stmt.inside]
      using hsub
  | .conditional condition yes none, hhold, hsub, hv => by
    rcases List.mem_append.mp hv with hv | hv
    · exact condition.stands_of_mem_visits hhold.left
        ((List.sublist_append_left ..).trans hsub) hv
    · have hyes := hhold.right_of_references fun o ho => condition.mem_occurrences ho
      exact yes.stands_of_mem_visits hyes hsub hv
  | .conditional condition yes (some no), hhold, hsub, hv => by
    have hboth : (around.occurrences ++ (yes.inside ++ no.inside)).Sublist scopes := hsub
    rcases List.mem_append.mp hv with hv | hv
    · rcases List.mem_append.mp hv with hv | hv
      · exact condition.stands_of_mem_visits hhold.left.left
          ((List.sublist_append_left ..).trans hsub) hv
      · have hyes := hhold.left.right_of_references fun o ho => condition.mem_occurrences ho
        refine yes.stands_of_mem_visits hyes (List.Sublist.trans ?_ hboth) hv
        exact (List.sublist_append_left ..).append_left _
    · have hrest : around.Hold (condition.occurrences ++ (yes.occurrences ++ no.occurrences)) := by
        rw [← List.append_assoc]
        exact hhold
      have hno := (hrest.right_of_references fun o ho => condition.mem_occurrences ho).right
        fun name => yes.declaration_mem.symm
      refine no.stands_of_mem_visits hno (List.Sublist.trans ?_ hboth) hv
      exact (List.sublist_append_right ..).append_left _
  | .loop condition body, hhold, hsub, hv => by
    rcases List.mem_append.mp hv with hv | hv
    · exact condition.stands_of_mem_visits hhold.left
        ((List.sublist_append_left ..).trans hsub) hv
    · have hbody := hhold.right_of_references fun o ho => condition.mem_occurrences ho
      exact body.stands_of_mem_visits hbody hsub hv
  | .function site name params body, hhold, hsub, hv => by
    have hwhole : around.Hold
        ([.declaration name.lexeme] ++ referencesOf (Stmt.allOccurrences body)) := hhold
    have hdeclared : (around.declare [name.lexeme]).Hold (referencesOf (Stmt.allOccurrences body)) :=
      hwhole.right (by simp)
    have hinside : ((around.declare [name.lexeme]).inBody site params body).Hold
        (Stmt.allOccurrences body) := hdeclared.inside site params true
    refine Stmt.stands_of_mem_allVisits body hinside ?_ hv
    simpa [Surroundings.occurrences, Surroundings.inBody, Scope.occurrences, Stmt.inside]
      using hsub

theorem Stmt.stands_of_mem_allVisits {around : Surroundings} :
    ∀ ss : List (Stmt Site), around.Hold (Stmt.allOccurrences ss) →
      (around.occurrences ++ Stmt.allInside ss).Sublist scopes →
        v ∈ Stmt.allVisits around ss → v.Stands scopes
  | [], _, _, hv => by simp [Stmt.allVisits] at hv
  | s :: ss, hhold, hsub, hv => by
    have hboth : (around.occurrences ++ (s.inside ++ Stmt.allInside ss)).Sublist scopes := hsub
    rcases List.mem_append.mp hv with hv | hv
    · refine s.stands_of_mem_visits hhold.left (List.Sublist.trans ?_ hboth) hv
      exact (List.sublist_append_left ..).append_left _
    · have hrest := hhold.right fun name => s.declaration_mem.symm
      refine Stmt.stands_of_mem_allVisits ss hrest (List.Sublist.trans ?_ hboth) hv
      exact (List.sublist_append_right ..).append_left _

end

end Standing

end Lox
