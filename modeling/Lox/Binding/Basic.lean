import Lox.Diagnostic
import Lox.Syntax.Sites

/-!
# Bindings

A reference is bound when one of the scopes around it, blocks and functions but not the outermost
one, declares its name before it. Its distance is the number of scopes between the reference and the
innermost such scope. The distances are found before a statement is executed and kept in a table; a
reference without an entry is looked up among the globals.
-/
namespace Lox

/-- A reference either reads a variable or assigns to it. -/
inductive ReferenceKind where
  | read
  | assignment
  deriving DecidableEq, Repr

/-- A reference and the distance of the local scope that it belongs to. -/
structure Binding where
  site : Site
  kind : ReferenceKind
  name : Token
  distance : Nat
  /-- Whether the reference lies inside the body of a function, and so may be executed again. -/
  inFunction : Bool

/-- Why a statement has no bindings. -/
inductive ResolutionError.Cause where
  | declaredTwice
  | ownInitializer
  | tooDeep
  deriving DecidableEq, Repr

/-- The wording of a resolution error. -/
def ResolutionError.Cause.message : ResolutionError.Cause → String
  | declaredTwice => "variable with this name already declared in this scope"
  | ownInitializer => "cannot read variable in its own initializer"
  | tooDeep => "maximum nesting depth exceeded"

/-- A statement whose declarations and references do not fit together. -/
structure ResolutionError where
  cause : ResolutionError.Cause
  line : Option Int
  deriving DecidableEq, Repr

def ResolutionError.diagnostic (e : ResolutionError) : Diagnostic :=
  ⟨.resolution, e.cause.message, e.line⟩

/-- Why a statement could not be resolved. -/
inductive ResolutionFailure where
  | error (error : ResolutionError)
  | fault (fault : Fault)

/-- The distances of the bound references, by their sites. -/
structure Distances where
  entries : List (Site × Nat)

namespace Distances

/-- No distances. -/
def empty : Distances := ⟨[]⟩

/-- The distance of the reference at `site`. -/
def find? (d : Distances) (site : Site) : Option Nat :=
  d.entries.lookup site

/-- The number of bound references. -/
def size (d : Distances) : Nat :=
  d.entries.length

/-- The table without the references at the sites of `bindings`. -/
def forget (d : Distances) (bindings : List Binding) : Distances :=
  ⟨d.entries.filter fun entry => !bindings.any (·.site == entry.1)⟩

/-- The table with one binding more, which replaces an older one at the same site. -/
def insert (d : Distances) (b : Binding) : Distances :=
  ⟨(b.site, b.distance) :: d.entries.filter (·.1 != b.site)⟩

/-- The table with further bindings, of which a later one counts. -/
def record (d : Distances) (bindings : List Binding) : Distances :=
  bindings.foldl insert d

@[simp] theorem find?_empty (site : Site) : empty.find? site = none := rfl

@[simp] theorem size_empty : empty.size = 0 := rfl

@[simp] theorem forget_nil (d : Distances) : d.forget [] = d := by
  obtain ⟨entries⟩ := d
  exact congrArg Distances.mk (List.filter_eq_self.2 fun _ _ => rfl)

@[simp] theorem record_nil (d : Distances) : d.record [] = d := rfl

@[simp] theorem record_cons (d : Distances) (b : Binding) (bs : List Binding) :
    d.record (b :: bs) = (d.insert b).record bs := rfl

@[simp] theorem find?_insert_self (d : Distances) (b : Binding) :
    (d.insert b).find? b.site = some b.distance := by
  simp [find?, insert]

end Distances

end Lox
