import Lox.Binding.Basic

/-!
# Lexical scoping, read off the text

The names in a statement stand in the order of its text, each inside some local scopes, and declare
something or refer to it. What a name means depends on the names before it: a reference belongs to
the innermost scope around it in which its name has been declared, a name must not be declared twice
in a local scope, and a variable must not be read in its own initializer.
-/
namespace Lox

/-- A local scope: a block, or the parameters and the body of a function. -/
inductive LocalScope where
  | block (site : Site)
  | function (site : Site)
  deriving DecidableEq

def LocalScope.site : LocalScope → Site
  | block site | function site => site

def LocalScope.isFunction : LocalScope → Bool
  | block _ => false
  | function _ => true

/-- Where a name stands: the local scopes around it, innermost first, and the variable whose
initializer it is part of, if there is one, with the local scopes around its declaration. -/
structure Position where
  scopes : List LocalScope
  initialized : Option (String × List LocalScope)

/-- Whether the position is in the body of a function, or among the parameters. -/
def Position.inFunction (p : Position) : Bool :=
  p.scopes.any LocalScope.isFunction

/-- What a name does: it declares a variable, parameter or function, or it refers to one. -/
inductive Role where
  | declaration
  | reference (site : Site) (kind : ReferenceKind)
  deriving DecidableEq

/-- A name at its position. -/
structure Mark where
  position : Position
  role : Role
  name : Token

mutual

/-- The names in an expression in their order, but the name in an assignment behind its value. -/
def Expr.marks (p : Position) : Expr Site → List Mark
  | .literal _ => []
  | .grouping inner => inner.marks p
  | .unary _ operand => operand.marks p
  | .binary left _ right => left.marks p ++ right.marks p
  | .logical left _ right => left.marks p ++ right.marks p
  | .variable site name => [⟨p, .reference site .read, name⟩]
  | .assignment site name value => value.marks p ++ [⟨p, .reference site .assignment, name⟩]
  | .call callee _ arguments => callee.marks p ++ Expr.allMarks p arguments
  | .foreign _ => []

/-- The names in expressions. -/
def Expr.allMarks (p : Position) : List (Expr Site) → List Mark
  | [] => []
  | e :: es => e.marks p ++ Expr.allMarks p es

end

mutual

/-- The names in a statement inside of some scopes. The name of a function stands outside of the
function, its parameters stand inside. -/
def Stmt.marks (scopes : List LocalScope) : Stmt Site → List Mark
  | .expression value => value.marks ⟨scopes, none⟩
  | .print value => value.marks ⟨scopes, none⟩
  | .assert _ condition => condition.marks ⟨scopes, none⟩
  | .variable name none => [⟨⟨scopes, none⟩, .declaration, name⟩]
  | .variable name (some initializer) =>
    [⟨⟨scopes, none⟩, .declaration, name⟩] ++ initializer.marks ⟨scopes, some (name.lexeme, scopes)⟩
  | .block site body => Stmt.allMarks (.block site :: scopes) body
  | .conditional condition yes none => condition.marks ⟨scopes, none⟩ ++ yes.marks scopes
  | .conditional condition yes (some no) =>
    condition.marks ⟨scopes, none⟩ ++ (yes.marks scopes ++ no.marks scopes)
  | .loop condition body => condition.marks ⟨scopes, none⟩ ++ body.marks scopes
  | .function site name params body =>
    [⟨⟨scopes, none⟩, .declaration, name⟩] ++
      (params.map (⟨⟨.function site :: scopes, none⟩, .declaration, ·⟩) ++
        Stmt.allMarks (.function site :: scopes) body)
  | .return _ none => []
  | .return _ (some value) => value.marks ⟨scopes, none⟩
  | .endMarker => []
  | .foreign _ => []

/-- The names in statements. -/
def Stmt.allMarks (scopes : List LocalScope) : List (Stmt Site) → List Mark
  | [] => []
  | s :: ss => s.marks scopes ++ Stmt.allMarks scopes ss

end

/-- Whether `name` is declared in `scope`, and in no scope inside of it, by one of the names
`before`. -/
def declaredIn (before : List Mark) (scope : LocalScope) (name : String) : Bool :=
  before.any fun m => m.role = .declaration && m.position.scopes.head? = some scope &&
    m.name.lexeme = name

namespace Mark

/-- How many scopes lie between a name and the innermost scope around it in which the name has been
declared. -/
def distance? (before : List Mark) (m : Mark) : Option Nat :=
  m.position.scopes.findIdx? fun scope => declaredIn before scope m.name.lexeme

/-- The error that is made with a name: it has been declared in the same local scope before, or it is
read in the initializer of a variable with this name in the scope where the reading stands. -/
def offence? (before : List Mark) (m : Mark) : Option ResolutionError :=
  match m.role with
  | .declaration =>
    if m.position.scopes.head?.any fun scope => declaredIn before scope m.name.lexeme then
      some ⟨.declaredTwice, m.name.line⟩
    else none
  | .reference _ .read =>
    if m.position.initialized = some (m.name.lexeme, m.position.scopes) then
      some ⟨.ownInitializer, m.name.line⟩
    else none
  | .reference _ .assignment => none

/-- What is recorded for a reference: its distance, if the name has been declared around it. -/
def binding? (before : List Mark) (m : Mark) : Option Binding :=
  match m.role with
  | .declaration => none
  | .reference site kind =>
    (m.distance? before).map fun distance =>
      ⟨site, kind, m.name, distance, m.position.inFunction⟩

/-- The site of a reference. -/
def site? (m : Mark) : Option Site :=
  match m.role with
  | .declaration => none
  | .reference site _ => some site

end Mark

/-- What `f` makes of each of some marks and the marks before it. -/
def gather {β : Type} (f : List Mark → Mark → Option β) : List Mark → List Mark → List β
  | _, [] => []
  | before, m :: ms => (f before m).toList ++ gather f (before ++ [m]) ms

section Gathering
variable {β : Type} {f : List Mark → Mark → Option β} {before ms more : List Mark} {m : Mark}

@[simp] theorem gather_nil (f : List Mark → Mark → Option β) (before : List Mark) :
    gather f before [] = [] := rfl

theorem gather_cons (f : List Mark → Mark → Option β) (before : List Mark) (m : Mark)
    (ms : List Mark) :
    gather f before (m :: ms) = (f before m).toList ++ gather f (before ++ [m]) ms := rfl

theorem gather_append (f : List Mark → Mark → Option β) (before ms more : List Mark) :
    gather f before (ms ++ more) = gather f before ms ++ gather f (before ++ ms) more := by
  induction ms generalizing before with
  | nil => simp
  | cons m ms ih => simp [gather_cons, ih]

/-- Nothing is gathered where `f` makes nothing of any mark. -/
theorem gather_eq_nil_iff :
    gather f before ms = [] ↔
      ∀ front m back, ms = front ++ m :: back → f (before ++ front) m = none := by
  induction ms generalizing before with
  | nil => simp
  | cons first ms ih =>
    rw [gather_cons, List.append_eq_nil_iff, Option.toList_eq_nil_iff, ih]
    constructor
    · rintro ⟨hfirst, hrest⟩ front m back hsplit
      cases front with
      | nil =>
        obtain ⟨rfl, -⟩ := List.cons.inj hsplit
        rwa [List.append_nil]
      | cons other front =>
        obtain ⟨rfl, hback⟩ := List.cons.inj hsplit
        simpa using hrest front m back hback
    · intro h
      refine ⟨by simpa using h [] first ms rfl, fun front m back hsplit => ?_⟩
      simpa using h (first :: front) m back (by rw [hsplit, List.cons_append])

/-- What is gathered first is made of the first mark of which something is made. -/
theorem exists_of_gather_eq_cons {b : β} {bs : List β} (h : gather f before ms = b :: bs) :
    ∃ front m back, ms = front ++ m :: back ∧ f (before ++ front) m = some b ∧
      gather f before front = [] := by
  induction ms generalizing before with
  | nil => cases h
  | cons first ms ih =>
    rw [gather_cons] at h
    cases hfirst : f before first with
    | some c =>
      rw [hfirst] at h
      obtain rfl : c = b := (List.cons.inj h).1
      exact ⟨[], first, ms, rfl, by rwa [List.append_nil], rfl⟩
    | none =>
      rw [hfirst] at h
      obtain ⟨front, m, back, rfl, hmark, hnone⟩ := ih h
      refine ⟨first :: front, m, back, rfl, by simpa using hmark, ?_⟩
      rw [gather_cons, hfirst, hnone]
      rfl

theorem mem_gather_of_eq_some {front back : List Mark} {b : β}
    (h : f (before ++ front) m = some b) : b ∈ gather f before (front ++ m :: back) := by
  rw [gather_append, gather_cons, h]
  simp

theorem filter_gather (p : β → Bool) (f : List Mark → Mark → Option β) (before ms : List Mark) :
    (gather f before ms).filter p = gather (fun before m => (f before m).filter p) before ms := by
  induction ms generalizing before with
  | nil => rfl
  | cons m ms ih =>
    rw [gather_cons, gather_cons, List.filter_append, ih]
    congr 1
    cases hm : f before m with
    | none => rfl
    | some b => cases hb : p b <;> simp [Option.filter, hb]

end Gathering

/-- The errors in some marks, in their order. -/
def Mark.offences (before ms : List Mark) : List ResolutionError :=
  gather Mark.offence? before ms

/-- What is recorded for some marks, in their order. -/
def Mark.bindings (before ms : List Mark) : List Binding :=
  gather Mark.binding? before ms

theorem Mark.offences_append (before ms more : List Mark) :
    Mark.offences before (ms ++ more) =
      Mark.offences before ms ++ Mark.offences (before ++ ms) more :=
  gather_append _ before ms more

theorem Mark.bindings_append (before ms more : List Mark) :
    Mark.bindings before (ms ++ more) =
      Mark.bindings before ms ++ Mark.bindings (before ++ ms) more :=
  gather_append _ before ms more

@[simp] theorem Mark.offences_singleton (before : List Mark) (m : Mark) :
    Mark.offences before [m] = (m.offence? before).toList := by
  simp [Mark.offences, gather_cons]

@[simp] theorem Mark.bindings_singleton (before : List Mark) (m : Mark) :
    Mark.bindings before [m] = (m.binding? before).toList := by
  simp [Mark.bindings, gather_cons]

end Lox
