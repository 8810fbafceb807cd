import Lox.Proofs.Scoping.Scopes

/-!
# The trail of an activation

Where a block is entered or a function is called, the parameters and the body of one scope are
executed in one frame. The trail of such an activation tells in their order which declarations of the
scope have been tried, with what success, and which of its loops have gone round. The blocks and
functions in the scope have frames and trails of their own. In a trail a declaration is not tried
twice without a round of a loop around it in between.
-/
namespace Lox

/-- A turn on the way from a scope to one of its statements. -/
inductive Turn where
  /-- To the statement with that number in the body of the scope. -/
  | item (index : Nat)
  /-- To the branches of a conditional. -/
  | yes
  | no
  /-- To the body of a loop. -/
  | body

/-- The way from a scope to a statement that stands in no inner scope of it, the last turn first. -/
abbrev Route := List Turn

/-- What declares a name in a scope: a parameter, or the statement at the end of some way. -/
inductive Declarer where
  | parameter (index : Nat)
  | statement (route : Route)

/-- What is noted of an activation. -/
inductive Act where
  /-- A name is bound. -/
  | declares (declarer : Declarer) (name : String)
  /-- A name should be bound and is bound already. -/
  | collides (declarer : Declarer) (name : String)
  /-- The body of a loop is begun. -/
  | round (route : Route)

/-- A declaration is executed, with success or without. -/
def Act.Tries (declarer : Declarer) (name : String) (act : Act) : Prop :=
  act = .declares declarer name ∨ act = .collides declarer name

theorem Act.Tries.ne_round {declarer : Declarer} {name : String} {act : Act}
    (h : act.Tries declarer name) (route : Route) : act ≠ .round route := by
  rcases h with rfl | rfl <;> exact nofun

theorem Act.Tries.eq {declarer declarer' : Declarer} {name name' : String} {act : Act}
    (h : act.Tries declarer name) (h' : act.Tries declarer' name') :
    declarer = declarer' ∧ name = name' := by
  rcases h with rfl | rfl <;> rcases h' with h' | h' <;> cases h' <;> exact ⟨rfl, rfl⟩

/-- The trail that a statement may leave which is the end of some way. It may break off anywhere. -/
inductive Trail : Route → Stmt Site → List Act → Prop where
  | nothing (route : Route) (s : Stmt Site) : Trail route s []
  | variable {route : Route} {name : Token} {initializer : Option (Expr Site)} {act : Act}
    (h : act.Tries (.statement route) name.lexeme) : Trail route (.variable name initializer) [act]
  | function {route : Route} {site : Site} {name : Token} {params : List Token}
    {body : List (Stmt Site)} {act : Act} (h : act.Tries (.statement route) name.lexeme) :
    Trail route (.function site name params body) [act]
  | yes {route : Route} {condition : Expr Site} {yes : Stmt Site} {no : Option (Stmt Site)}
    {acts : List Act} (h : Trail (.yes :: route) yes acts) :
    Trail route (.conditional condition yes no) acts
  | no {route : Route} {condition : Expr Site} {yes no : Stmt Site} {acts : List Act}
    (h : Trail (.no :: route) no acts) : Trail route (.conditional condition yes (some no)) acts
  | round {route : Route} {condition : Expr Site} {body : Stmt Site} {acts more : List Act}
    (h : Trail (.body :: route) body acts) (rest : Trail route (.loop condition body) more) :
    Trail route (.loop condition body) ((.round route :: acts) ++ more)

/-- The trail that statements may leave, the first of which has that number in its scope. -/
inductive Trails : Nat → List (Stmt Site) → List Act → Prop where
  | nothing (index : Nat) (ss : List (Stmt Site)) : Trails index ss []
  | cons {index : Nat} {s : Stmt Site} {ss : List (Stmt Site)} {acts more : List Act}
    (h : Trail [.item index] s acts) (rest : Trails (index + 1) ss more) :
    Trails index (s :: ss) (acts ++ more)

/-- The trail that parameters may leave, the first of which has that number. -/
inductive Given : Nat → List Token → List Act → Prop where
  | nothing (index : Nat) (params : List Token) : Given index params []
  | cons {index : Nat} {param : Token} {params : List Token} {act : Act} {acts : List Act}
    (h : act.Tries (.parameter index) param.lexeme) (rest : Given (index + 1) params acts) :
    Given index (param :: params) (act :: acts)

/-- The trail that an activation of a scope may leave. -/
def Scope.Trail (scope : Scope) (acts : List Act) : Prop :=
  ∃ given inside, acts = given ++ inside ∧ Given 0 scope.params given ∧ Trails 0 scope.body inside

section Declarers
variable {σ : Type}

/-- The names that a statement declares in the scope it stands in, with the ways to their
declarations. -/
def Stmt.declarers (route : Route) : Stmt σ → List (Route × String)
  | .expression _ | .print _ | .assert _ _ | .block _ _ | .return _ _ | .endMarker | .foreign _ => []
  | .variable name _ | .function _ name _ _ => [(route, name.lexeme)]
  | .conditional _ yes none => yes.declarers (.yes :: route)
  | .conditional _ yes (some no) => yes.declarers (.yes :: route) ++ no.declarers (.no :: route)
  | .loop _ body => body.declarers (.body :: route)

/-- Those of statements of which the first one has that number. -/
def Stmt.allDeclarers (index : Nat) : List (Stmt σ) → List (Route × String)
  | [] => []
  | s :: ss => s.declarers [.item index] ++ Stmt.allDeclarers (index + 1) ss

/-- The names of parameters of which the first one has that number. -/
def Declarer.parameters (index : Nat) : List Token → List (Declarer × String)
  | [] => []
  | param :: params => (.parameter index, param.lexeme) :: parameters (index + 1) params

/-- The names that a scope declares, and what declares them. -/
def Scope.declarers (scope : Scope) : List (Declarer × String) :=
  Declarer.parameters 0 scope.params ++
    (Stmt.allDeclarers 0 scope.body).map fun (route, name) => (.statement route, name)

theorem Stmt.map_snd_declarers : ∀ (s : Stmt σ) (route : Route),
    (s.declarers route).map Prod.snd = s.declared
  | .expression _, _ | .print _, _ | .assert _ _, _ | .variable _ _, _ | .block _ _, _
  | .function _ _ _ _, _ | .return _ _, _ | .endMarker, _ | .foreign _, _ => rfl
  | .conditional _ yes none, route => yes.map_snd_declarers (.yes :: route)
  | .conditional _ yes (some no), route => by
    rw [declarers, declared, List.map_append, yes.map_snd_declarers, no.map_snd_declarers]
  | .loop _ body, route => body.map_snd_declarers (.body :: route)

theorem Stmt.map_snd_allDeclarers (index : Nat) (ss : List (Stmt σ)) :
    (Stmt.allDeclarers index ss).map Prod.snd = Stmt.allDeclared ss := by
  induction ss generalizing index with
  | nil => rfl
  | cons s ss ih =>
    rw [allDeclarers, List.map_append, s.map_snd_declarers, ih, Stmt.allDeclared_cons]

theorem Declarer.map_snd_parameters (index : Nat) (params : List Token) :
    (parameters index params).map Prod.snd = params.map (·.lexeme) := by
  induction params generalizing index with
  | nil => rfl
  | cons param params ih => rw [parameters, List.map_cons, ih, List.map_cons]

theorem Scope.map_snd_declarers (scope : Scope) : scope.declarers.map Prod.snd = scope.names := by
  rw [declarers, names, List.map_append, Declarer.map_snd_parameters, List.map_map,
    ← Stmt.map_snd_allDeclarers 0]
  rfl

/-- In a scope that declares no name twice, a name has one declaration. -/
theorem Scope.declarer_unique {scope : Scope} (h : scope.names.Nodup) {declarer declarer' : Declarer}
    {name : String} (hfirst : (declarer, name) ∈ scope.declarers)
    (hsecond : (declarer', name) ∈ scope.declarers) : declarer = declarer' := by
  rw [← scope.map_snd_declarers] at h
  exact congrArg Prod.fst (List.inj_on_of_nodup_map h hfirst hsecond rfl)

/-- The ways to the declarations in a statement begin with the way to the statement. -/
theorem Stmt.suffix_of_mem_declarers {place : Route} {name : String} : ∀ (s : Stmt σ) (route : Route),
    (place, name) ∈ s.declarers route → route <:+ place
  | .expression _, _ | .print _, _ | .assert _ _, _ | .block _ _, _ | .return _ _, _ | .endMarker, _
  | .foreign _, _ => fun h => absurd h List.not_mem_nil
  | .variable _ _, _ | .function _ _ _ _, _ => fun h => by
    obtain ⟨rfl, -⟩ := Prod.mk.inj (List.mem_singleton.mp h)
    exact List.suffix_rfl
  | .conditional _ yes none, _ => fun h =>
    (List.suffix_cons _ _).trans (yes.suffix_of_mem_declarers _ h)
  | .conditional _ yes (some no), _ => fun h => by
    rcases List.mem_append.mp h with h | h
    · exact (List.suffix_cons _ _).trans (yes.suffix_of_mem_declarers _ h)
    · exact (List.suffix_cons _ _).trans (no.suffix_of_mem_declarers _ h)
  | .loop _ body, _ => fun h => (List.suffix_cons _ _).trans (body.suffix_of_mem_declarers _ h)

end Declarers

section Members
variable {acts : List Act} {act : Act} {declarer : Declarer} {name : String}

/-- A statement tries the declarations that stand in it. -/
theorem Trail.exists_of_tries {route : Route} {s : Stmt Site} (h : Trail route s acts)
    (hmem : act ∈ acts) (htries : act.Tries declarer name) :
    ∃ place, declarer = .statement place ∧ (place, name) ∈ s.declarers route := by
  induction h with
  | nothing => cases hmem
  | «variable» h | function h =>
    obtain rfl := List.mem_singleton.mp hmem
    obtain ⟨rfl, rfl⟩ := htries.eq h
    exact ⟨_, rfl, List.mem_singleton.mpr rfl⟩
  | @yes _ _ _ no _ _ ih =>
    obtain ⟨place, rfl, hplace⟩ := ih hmem
    cases no with
    | none => exact ⟨place, rfl, hplace⟩
    | some no => exact ⟨place, rfl, List.mem_append_left _ hplace⟩
  | no _ ih =>
    obtain ⟨place, rfl, hplace⟩ := ih hmem
    exact ⟨place, rfl, List.mem_append_right _ hplace⟩
  | round _ _ ih ihrest =>
    rcases List.mem_append.mp hmem with hmem | hmem
    · rcases List.mem_cons.mp hmem with rfl | hmem
      · exact absurd rfl (htries.ne_round _)
      · exact ih hmem
    · exact ihrest hmem

theorem Trails.exists_of_tries {index : Nat} {ss : List (Stmt Site)} (h : Trails index ss acts)
    (hmem : act ∈ acts) (htries : act.Tries declarer name) :
    ∃ place, declarer = .statement place ∧ (place, name) ∈ Stmt.allDeclarers index ss := by
  induction h with
  | nothing => cases hmem
  | cons hfirst _ ih =>
    rcases List.mem_append.mp hmem with hmem | hmem
    · obtain ⟨place, rfl, hplace⟩ := hfirst.exists_of_tries hmem htries
      exact ⟨place, rfl, List.mem_append_left _ hplace⟩
    · obtain ⟨place, rfl, hplace⟩ := ih hmem
      exact ⟨place, rfl, List.mem_append_right _ hplace⟩

/-- The ways to declarations in the rest of a body begin with the statements of the rest. -/
theorem Stmt.exists_item_of_mem_allDeclarers {index : Nat} {ss : List (Stmt Site)} {place : Route}
    (h : (place, name) ∈ Stmt.allDeclarers index ss) : ∃ later ≥ index, [.item later] <:+ place := by
  induction ss generalizing index with
  | nil => cases h
  | cons s ss ih =>
    rcases List.mem_append.mp h with h | h
    · exact ⟨index, Nat.le_refl _, s.suffix_of_mem_declarers _ h⟩
    · obtain ⟨later, hle, hsuffix⟩ := ih h
      exact ⟨later, Nat.le_of_succ_le hle, hsuffix⟩

theorem Given.mem_parameters {index : Nat} {params : List Token} (h : Given index params acts)
    (hmem : act ∈ acts) (htries : act.Tries declarer name) :
    (declarer, name) ∈ Declarer.parameters index params := by
  induction h with
  | nothing => cases hmem
  | cons hfirst _ ih =>
    rcases List.mem_cons.mp hmem with rfl | hmem
    · obtain ⟨rfl, rfl⟩ := htries.eq hfirst
      exact List.mem_cons_self
    · exact List.mem_cons_of_mem _ (ih hmem)

theorem Declarer.exists_of_mem_parameters {index : Nat} {params : List Token}
    (h : (declarer, name) ∈ parameters index params) : ∃ later ≥ index, declarer = .parameter later := by
  induction params generalizing index with
  | nil => cases h
  | cons param params ih =>
    rcases List.mem_cons.mp h with h | h
    · exact ⟨index, Nat.le_refl _, (Prod.mk.inj h).1⟩
    · obtain ⟨later, hle, heq⟩ := ih h
      exact ⟨later, Nat.le_of_succ_le hle, heq⟩

/-- An activation tries the declarations of its scope. -/
theorem Scope.Trail.mem_declarers {scope : Scope} (h : scope.Trail acts) (hmem : act ∈ acts)
    (htries : act.Tries declarer name) : (declarer, name) ∈ scope.declarers := by
  obtain ⟨given, inside, rfl, hgiven, hinside⟩ := h
  rcases List.mem_append.mp hmem with hmem | hmem
  · exact List.mem_append_left _ (hgiven.mem_parameters hmem htries)
  · obtain ⟨place, rfl, hplace⟩ := hinside.exists_of_tries hmem htries
    exact List.mem_append_right _ (List.mem_map.mpr ⟨_, hplace, rfl⟩)

end Members

/-- Whatever is tried twice is a statement in the body of a loop of the same scope which has gone
round in between. -/
structure Separated (acts : List Act) : Prop where
  exists_round : ∀ {front between back : List Act} {first second : Act} {declarer : Declarer}
    {name name' : String}, acts = front ++ first :: (between ++ second :: back) →
      first.Tries declarer name → second.Tries declarer name' → ∃ inner outer : Route,
        declarer = .statement (inner ++ .body :: outer) ∧ .round outer ∈ between

namespace Separated
variable {acts more : List Act} {act : Act}

theorem of_length_le_one (h : acts.length ≤ 1) : Separated acts := by
  refine ⟨fun heq => ?_⟩
  have hlength := congrArg List.length heq
  simp only [List.length_append, List.length_cons] at hlength
  omega

theorem nil : Separated [] := of_length_le_one (Nat.zero_le 1)

theorem singleton (act : Act) : Separated [act] := of_length_le_one (Nat.le_refl 1)

/-- What is tried in both parts must be in a loop that goes round between them. -/
theorem append (h : Separated acts) (h' : Separated more)
    (hcross : ∀ {first second : Act} {declarer : Declarer} {name name' : String}, first ∈ acts →
      second ∈ more → first.Tries declarer name → second.Tries declarer name' →
        ∃ (inner outer : Route) (rest : List Act),
          declarer = .statement (inner ++ .body :: outer) ∧ more = .round outer :: rest) :
    Separated (acts ++ more) := by
  refine ⟨fun {front between back first second declarer name name'} heq hfirst hsecond => ?_⟩
  rcases List.append_eq_append_iff.mp heq with ⟨middle, -, hmore⟩ | ⟨middle, hacts, hmiddle⟩
  · exact h'.exists_round hmore hfirst hsecond
  · cases middle with
    | nil =>
      have hmore : more = [] ++ first :: (between ++ second :: back) := hmiddle.symm
      exact h'.exists_round hmore hfirst hsecond
    | cons act middle =>
      obtain ⟨rfl, hrest⟩ := List.cons.inj hmiddle
      have hearly : first ∈ acts := hacts ▸ List.mem_append_right _ List.mem_cons_self
      have hfar : second ∈ more → ∃ (inner outer : Route) (rest : List Act),
          declarer = .statement (inner ++ .body :: outer) ∧ more = .round outer :: rest :=
        fun hmem => hcross hearly hmem hfirst hsecond
      rcases List.append_eq_append_iff.mp hrest with ⟨late, rfl, hlate⟩ | ⟨late, rfl, rfl⟩
      · cases late with
        | nil =>
          -- The second part would begin with a round, and not with an attempt.
          rw [List.nil_append] at hlate
          obtain ⟨_, outer, _, _, hround⟩ := hfar (hlate ▸ List.mem_cons_self)
          rw [hround] at hlate
          exact absurd (List.cons.inj hlate).1 (hsecond.ne_round outer)
        | cons act late =>
          obtain ⟨rfl, -⟩ := List.cons.inj hlate
          exact h.exists_round hacts hfirst hsecond
      · obtain ⟨inner, outer, rest, hdeclarer, hround⟩ :=
          hfar (List.mem_append_right _ List.mem_cons_self)
        refine ⟨inner, outer, hdeclarer, List.mem_append_right _ ?_⟩
        cases late with
        | nil => exact absurd (List.cons.inj hround).1 (hsecond.ne_round outer)
        | cons act late => exact (List.cons.inj hround).1 ▸ List.mem_cons_self

/-- Nothing is tried in both parts. -/
theorem append_of_disjoint (h : Separated acts) (h' : Separated more)
    (hdisjoint : ∀ {first second : Act} {declarer : Declarer} {name name' : String}, first ∈ acts →
      second ∈ more → first.Tries declarer name → ¬second.Tries declarer name') :
    Separated (acts ++ more) :=
  h.append h' fun hfirst hsecond htries htries' =>
    absurd htries' (hdisjoint hfirst hsecond htries)

end Separated

/-- The rounds of a loop begin with a note of that. -/
theorem Trail.eq_nil_or_round {route : Route} {condition : Expr Site} {body : Stmt Site}
    {acts : List Act} (h : Trail route (.loop condition body) acts) :
    acts = [] ∨ ∃ rest, acts = .round route :: rest := by
  cases h with
  | nothing => exact .inl rfl
  | round => exact .inr ⟨_, rfl⟩

theorem Trail.separated {route : Route} {s : Stmt Site} {acts : List Act} (h : Trail route s acts) :
    Separated acts := by
  induction h with
  | nothing => exact .nil
  | «variable» | function => exact .singleton _
  | yes _ ih | no _ ih => exact ih
  | @round route condition body acts more hbody hrest ih ihrest =>
    have hround : Separated ([.round route] ++ acts) := by
      refine (Separated.singleton _).append_of_disjoint ih fun hfirst _ htries => ?_
      exact absurd (List.mem_singleton.mp hfirst) (htries.ne_round route)
    refine hround.append ihrest fun {first second declarer _ _} hfirst hsecond htries _ => ?_
    rcases List.mem_cons.mp hfirst with rfl | hfirst
    · exact absurd rfl (htries.ne_round route)
    · obtain ⟨place, rfl, hplace⟩ := hbody.exists_of_tries hfirst htries
      obtain ⟨inner, rfl⟩ := Stmt.suffix_of_mem_declarers _ _ hplace
      rcases hrest.eq_nil_or_round with rfl | ⟨rest, rfl⟩
      · cases hsecond
      · exact ⟨inner, route, rest, rfl, rfl⟩

theorem Trails.separated {index : Nat} {ss : List (Stmt Site)} {acts : List Act}
    (h : Trails index ss acts) : Separated acts := by
  induction h with
  | nothing => exact .nil
  | cons hfirst hrest ih =>
    refine hfirst.separated.append_of_disjoint ih fun hmem hmem' htries htries' => ?_
    obtain ⟨place, rfl, hplace⟩ := hfirst.exists_of_tries hmem htries
    obtain ⟨place', heq, hplace'⟩ := hrest.exists_of_tries hmem' htries'
    cases heq
    -- The ways begin at different items.
    obtain ⟨later, hle, hlater⟩ := Stmt.exists_item_of_mem_allDeclarers hplace'
    have hsame := List.suffix_of_suffix_length_le hlater (Stmt.suffix_of_mem_declarers _ _ hplace)
      (Nat.le_refl _)
    cases hsame.eq_of_length rfl
    omega

theorem Given.separated {index : Nat} {params : List Token} {acts : List Act}
    (h : Given index params acts) : Separated acts := by
  induction h with
  | nothing => exact .nil
  | @cons index param params act acts hfirst hrest ih =>
    refine (Separated.singleton act).append_of_disjoint ih fun hmem hmem' htries htries' => ?_
    obtain rfl := List.mem_singleton.mp hmem
    obtain ⟨rfl, -⟩ := htries.eq hfirst
    obtain ⟨later, hle, heq⟩ :=
      Declarer.exists_of_mem_parameters (hrest.mem_parameters hmem' htries')
    cases heq
    omega

namespace Scope.Trail
variable {scope : Scope} {acts : List Act}

theorem separated (h : scope.Trail acts) : Separated acts := by
  obtain ⟨given, inside, rfl, hgiven, hinside⟩ := h
  refine hgiven.separated.append_of_disjoint hinside.separated fun hmem hmem' htries htries' => ?_
  obtain ⟨place, rfl, -⟩ := hinside.exists_of_tries hmem' htries'
  obtain ⟨later, -, heq⟩ := Declarer.exists_of_mem_parameters (hgiven.mem_parameters hmem htries)
  cases heq

/-- In an activation of a scope that declares no name twice, a name is only tried twice by one and the
same statement, in the body of a loop that has gone round in between. -/
theorem tried_twice (h : scope.Trail acts) (hnames : scope.names.Nodup) {front between back : List Act}
    {first second : Act} {declarer declarer' : Declarer} {name : String}
    (hacts : acts = front ++ first :: (between ++ second :: back)) (hfirst : first.Tries declarer name)
    (hsecond : second.Tries declarer' name) : declarer = declarer' ∧
      ∃ inner outer : Route, declarer = .statement (inner ++ .body :: outer) ∧
        .round outer ∈ between := by
  have hmem : first ∈ acts := by simp [hacts]
  have hmem' : second ∈ acts := by simp [hacts]
  have hsame : declarer = declarer' := Scope.declarer_unique hnames
    (h.mem_declarers hmem hfirst) (h.mem_declarers hmem' hsecond)
  exact ⟨hsame, h.separated.exists_round hacts hfirst (hsame ▸ hsecond)⟩

end Scope.Trail

end Lox
