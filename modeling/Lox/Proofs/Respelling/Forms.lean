import Lox.Machine.Evaluation
import Lox.Proofs.Store

/-!
# What may occur in executed trees

Some properties of a text hold of every tree in it, and so of every function that a program can
store: which names occur, how functions are called, whether there are nodes without a meaning. Forms
collect such properties. Inside a function there are no end markers, whatever stands outside.
-/
namespace Lox
variable {σ : Type}

/-- Which names and nodes may occur in a tree. -/
structure Forms (σ : Type) where
  /-- Whether there may be nodes that end in a fault: foreign ones, and operators without a
  meaning. -/
  faults : Prop
  name : String → Prop
  /-- The functions that a scope may declare. -/
  function : Option σ → String → Prop

/-- Whether a binary operator has a meaning. -/
def Kind.Calculates (kind : Kind) : Prop :=
  kind = .equalEqual ∨ kind = .bangEqual ∨ kind = .plus ∨ (arithmetic? kind).isSome

mutual

/-- Expressions in which nothing else occurs. -/
def Expr.Within (F : Forms σ) : Expr σ → Prop
  | .literal _ => True
  | .grouping inner => inner.Within F
  | .unary _ operand => operand.Within F
  | .binary left operator right =>
    (F.faults ∨ operator.kind.Calculates) ∧ left.Within F ∧ right.Within F
  | .logical left _ right => left.Within F ∧ right.Within F
  | .variable _ name => F.name name.lexeme
  | .assignment _ name value => F.name name.lexeme ∧ value.Within F
  | .call callee _ arguments => callee.Within F ∧ Expr.AllWithin F arguments
  | .foreign _ => F.faults

def Expr.AllWithin (F : Forms σ) : List (Expr σ) → Prop
  | [] => True
  | e :: es => e.Within F ∧ Expr.AllWithin F es

end

mutual

/-- Statements directly in `scope` in which nothing else occurs, and end markers only if `ending`. -/
def Stmt.Within (F : Forms σ) (ending : Prop) (scope : Option σ) : Stmt σ → Prop
  | .expression value | .print value | .assert _ value | .return _ (some value) => value.Within F
  | .variable name none => F.name name.lexeme
  | .variable name (some initializer) => F.name name.lexeme ∧ initializer.Within F
  | .block site body => Stmt.AllWithin F ending (some site) body
  | .conditional condition yes none => condition.Within F ∧ yes.Within F ending scope
  | .conditional condition yes (some no) =>
    condition.Within F ∧ yes.Within F ending scope ∧ no.Within F ending scope
  | .loop condition body => condition.Within F ∧ body.Within F ending scope
  | .function site name params body =>
    (F.name name.lexeme ∧ F.function scope name.lexeme) ∧ (∀ param ∈ params, F.name param.lexeme) ∧
      Stmt.AllWithin F False (some site) body
  | .return _ none => True
  | .endMarker => ending
  | .foreign _ => F.faults

def Stmt.AllWithin (F : Forms σ) (ending : Prop) (scope : Option σ) : List (Stmt σ) → Prop
  | [] => True
  | s :: ss => s.Within F ending scope ∧ Stmt.AllWithin F ending scope ss

end

theorem Expr.allWithin_iff {F : Forms σ} {es : List (Expr σ)} :
    Expr.AllWithin F es ↔ ∀ e ∈ es, e.Within F := by
  induction es with
  | nil => simp [Expr.AllWithin]
  | cons e es ih => simp [Expr.AllWithin, ih]

theorem Stmt.allWithin_iff {F : Forms σ} {ending : Prop} {scope : Option σ} {ss : List (Stmt σ)} :
    Stmt.AllWithin F ending scope ss ↔ ∀ s ∈ ss, s.Within F ending scope := by
  induction ss with
  | nil => simp [Stmt.AllWithin]
  | cons s ss ih => simp [Stmt.AllWithin, ih]

/-- The forms of a text: no node without a meaning, whatever the names. -/
def Forms.regular : Forms σ :=
  ⟨False, fun _ => True, fun _ _ => True⟩

section Mono
variable {τ : Type} {F : Forms σ} {G : Forms τ}

/-- Other forms admit all that these admit, apart from the functions of a scope. -/
structure Forms.Admits (F : Forms σ) (G : Forms τ) : Prop where
  faults : F.faults → G.faults
  name : ∀ {name}, F.name name → G.name name

mutual

theorem Expr.Within.number {G : Forms Site} (h : F.Admits G) :
    ∀ (e : Expr σ) (next : Site), e.Within F → (e.number next).1.Within G
  | .literal _, _, _ => trivial
  | .grouping inner, next, he => Expr.Within.number h inner next he
  | .unary _ operand, next, he => Expr.Within.number h operand next he
  | .binary left _ right, next, he =>
    ⟨he.1.imp_left h.faults, Expr.Within.number h left next he.2.1,
      Expr.Within.number h right _ he.2.2⟩
  | .logical left _ right, next, he =>
    ⟨Expr.Within.number h left next he.1, Expr.Within.number h right _ he.2⟩
  | .variable _ _, _, he => h.name he
  | .assignment _ _ value, next, he => ⟨h.name he.1, Expr.Within.number h value (next + 1) he.2⟩
  | .call callee _ arguments, next, he =>
    ⟨Expr.Within.number h callee next he.1, Expr.AllWithin.number h arguments _ he.2⟩
  | .foreign _, _, he => h.faults he

theorem Expr.AllWithin.number {G : Forms Site} (h : F.Admits G) :
    ∀ (es : List (Expr σ)) (next : Site), Expr.AllWithin F es →
      Expr.AllWithin G (Expr.numberAll es next).1
  | [], _, _ => trivial
  | e :: es, next, hes => ⟨Expr.Within.number h e next hes.1, Expr.AllWithin.number h es _ hes.2⟩

end

mutual

/-- Numbering the sites of a statement changes nothing in its forms. -/
theorem Stmt.Within.number {G : Forms Site} (h : F.Admits G)
    (hfunction : ∀ scope name, F.name name → G.function scope name) {ending : Prop} :
    ∀ (s : Stmt σ) (scope : Option σ) (other : Option Site) (next : Site),
      s.Within F ending scope → (s.number next).1.Within G ending other
  | .expression value, _, _, next, hs | .print value, _, _, next, hs
  | .assert _ value, _, _, next, hs | .return _ (some value), _, _, next, hs =>
    Expr.Within.number h value next hs
  | .variable _ none, _, _, _, hs => h.name hs
  | .variable _ (some initializer), _, _, next, hs =>
    ⟨h.name hs.1, Expr.Within.number h initializer next hs.2⟩
  | .block site body, _, _, next, hs =>
    Stmt.AllWithin.number h hfunction body (some site) (some next) (next + 1) hs
  | .conditional condition yes none, scope, other, next, hs =>
    ⟨Expr.Within.number h condition next hs.1,
      Stmt.Within.number h hfunction yes scope other _ hs.2⟩
  | .conditional condition yes (some no), scope, other, next, hs =>
    ⟨Expr.Within.number h condition next hs.1,
      Stmt.Within.number h hfunction yes scope other _ hs.2.1,
      Stmt.Within.number h hfunction no scope other _ hs.2.2⟩
  | .loop condition body, scope, other, next, hs =>
    ⟨Expr.Within.number h condition next hs.1,
      Stmt.Within.number h hfunction body scope other _ hs.2⟩
  | .function site _ _ body, _, other, next, hs =>
    ⟨⟨h.name hs.1.1, hfunction other _ hs.1.1⟩, fun param hparam => h.name (hs.2.1 param hparam),
      Stmt.AllWithin.number h hfunction body (some site) (some next) (next + 1) hs.2.2⟩
  | .return _ none, _, _, _, _ => trivial
  | .endMarker, _, _, _, hs => hs
  | .foreign _, _, _, _, hs => h.faults hs

theorem Stmt.AllWithin.number {G : Forms Site} (h : F.Admits G)
    (hfunction : ∀ scope name, F.name name → G.function scope name) {ending : Prop} :
    ∀ (ss : List (Stmt σ)) (scope : Option σ) (other : Option Site) (next : Site),
      Stmt.AllWithin F ending scope ss →
        Stmt.AllWithin G ending other (Stmt.numberAll ss next).1
  | [], _, _, _, _ => trivial
  | s :: ss, scope, other, next, hss =>
    ⟨Stmt.Within.number h hfunction s scope other next hss.1,
      Stmt.AllWithin.number h hfunction ss scope other _ hss.2⟩

end

end Mono

/-- Numbering keeps statements regular. -/
theorem Stmt.Within.number_regular {ending : Prop} {statement : Stmt Unit}
    (h : statement.Within .regular ending none) (next : Site) :
    (statement.number next).1.Within .regular ending none :=
  have hadmits : (Forms.regular : Forms Unit).Admits (Forms.regular : Forms Site) :=
    ⟨fun h => h, fun h => h⟩
  Stmt.Within.number hadmits (fun _ _ _ => trivial) statement none none next h

mutual

/-- Where no end marker occurs, it does not matter whether one might. -/
theorem Stmt.Within.ending {F : Forms σ} {ending : Prop} :
    ∀ (s : Stmt σ) (scope : Option σ), s.Within F False scope → s.Within F ending scope
  | .expression _, _, hs | .print _, _, hs | .assert _ _, _, hs | .return _ (some _), _, hs
  | .variable _ none, _, hs | .variable _ (some _), _, hs | .function _ _ _ _, _, hs
  | .foreign _, _, hs => hs
  | .block site body, _, hs => Stmt.AllWithin.ending body (some site) hs
  | .conditional _ yes none, scope, hs => ⟨hs.1, Stmt.Within.ending yes scope hs.2⟩
  | .conditional _ yes (some no), scope, hs =>
    ⟨hs.1, Stmt.Within.ending yes scope hs.2.1, Stmt.Within.ending no scope hs.2.2⟩
  | .loop _ body, scope, hs => ⟨hs.1, Stmt.Within.ending body scope hs.2⟩
  | .return _ none, _, _ => trivial
  | .endMarker, _, hs => hs.elim

theorem Stmt.AllWithin.ending {F : Forms σ} {ending : Prop} :
    ∀ (ss : List (Stmt σ)) (scope : Option σ), Stmt.AllWithin F False scope ss →
      Stmt.AllWithin F ending scope ss
  | [], _, _ => trivial
  | s :: ss, scope, hss =>
    ⟨Stmt.Within.ending s scope hss.1, Stmt.AllWithin.ending ss scope hss.2⟩

end

section Values
variable (F : Forms Site)

/-- Functions in whose parameters and bodies nothing else occurs. -/
def Value.Within : Value → Prop
  | .closure f => (∀ param ∈ f.params, F.name param.lexeme) ∧
      Stmt.AllWithin F False (some f.site) f.body
  | .atom _ | .native _ => True

/-- Frames with such names and values. -/
structure Frame.Within (f : Frame) : Prop where
  names : ∀ name ∈ f.names, F.name name
  values : ∀ b ∈ f.bindings, b.2.Within F

/-- Stores of such frames. -/
structure Store.Within (s : Store) : Prop where
  frame : ∀ {id : FrameId} {f : Frame}, s.frames[id]? = some f → f.Within F

end Values

namespace Store.Within
variable {F : Forms Site} {s : Store} {id : FrameId} {name : String} {value : Value}

theorem push (h : s.Within F) (outer : List FrameId) (origin : Option Site) :
    (s.push outer origin).Within F := by
  refine ⟨fun {other f} hf => ?_⟩
  by_cases hlt : other < s.next
  · rw [frame_push_of_lt hlt] at hf
    exact h.frame hf
  · have hother : other = s.next := by
      have hle : other < s.next + 1 := by simpa using lt_next hf
      exact Nat.le_antisymm (Nat.lt_succ_iff.mp hle) (Nat.not_lt.mp hlt)
    rw [hother, frame_push_next] at hf
    cases hf
    exact ⟨by simp [Frame.names], by simp⟩

theorem define (h : s.Within F) (id : FrameId) (hname : F.name name) (hvalue : value.Within F) :
    (s.define id name value).Within F := by
  refine ⟨fun {other f} hf => ?_⟩
  rw [frame_define] at hf
  split at hf
  · obtain ⟨g, hg, rfl⟩ := Option.map_eq_some_iff.mp hf
    refine ⟨fun key hkey => ?_, fun b hb => ?_⟩
    · rw [Frame.names_define] at hkey
      rcases List.mem_append.mp hkey with hold | hnew
      · exact (h.frame hg).names key hold
      · rw [List.mem_singleton.mp hnew]
        exact hname
    · rcases List.mem_append.mp hb with hold | hnew
      · exact (h.frame hg).values b hold
      · rw [List.mem_singleton.mp hnew]
        exact hvalue
  · exact h.frame hf

theorem write (h : s.Within F) (id : FrameId) (name : String) (hvalue : value.Within F) :
    (s.write id name value).Within F := by
  refine ⟨fun {other f} hf => ?_⟩
  rw [frame_write] at hf
  split at hf
  · obtain ⟨g, hg, rfl⟩ := Option.map_eq_some_iff.mp hf
    refine ⟨fun key hkey => ?_, fun b hb => ?_⟩
    · rw [Frame.names_update] at hkey
      exact (h.frame hg).names key hkey
    · obtain ⟨c, hc, rfl⟩ := List.mem_map.mp hb
      split
      · exact hvalue
      · exact (h.frame hg).values c hc
  · exact h.frame hf

theorem of_read? (h : s.Within F) (hread : s.read? id name = some value) : value.Within F := by
  obtain ⟨f, hf, hfind⟩ := Option.bind_eq_some_iff.mp hread
  exact (h.frame hf).values _ (Frame.mem_of_find? hfind)

end Store.Within

end Lox
