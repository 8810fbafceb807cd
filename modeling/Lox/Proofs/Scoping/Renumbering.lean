import Lox.Proofs.Outcome
import Lox.Binding.Resolver

/-!
# What numbering does not decide

The numbers of a tree say where its bindings are kept and nothing else. However a statement is
numbered, a walk through it goes the same way, and it is resolved or has the same error.
-/
namespace Lox
open Outcome

/-- The walk without the bindings that it has found. -/
def Walk.blank (w : Walk) : Walk :=
  { w with found := [] }

namespace Resolver

/-- How a step has ended, without the bindings that it has found. -/
def ending : EStateM.Result ResolutionFailure Walk Unit → EStateM.Result ResolutionFailure Walk Unit
  | .ok _ w => .ok () w.blank
  | .error failure w => .error failure w.blank

/-- Two steps that end in the same way wherever the same is declared. -/
def Alike (x y : Resolver Unit) : Prop :=
  ∀ w w', w.blank = w'.blank → ending (x w) = ending (y w')

namespace Alike
variable {σ : Type} {x x' y y' : Resolver Unit}

/-- A step that does not look at what has been found. -/
theorem of_blank (h : ∀ w, ending (x w) = ending (x w.blank)) : Alike x x := by
  intro w w' hw
  rw [h w, h w', hw]

theorem fail (cause : ResolutionError.Cause) (line : Option Int) :
    Alike (fail cause line) (fail cause line) :=
  of_blank fun _ => rfl

theorem pure : Alike (Pure.pure ()) (Pure.pure ()) :=
  of_blank fun _ => rfl

theorem fault (f : Fault) : Alike (throw (.fault f)) (throw (.fault f)) :=
  of_blank fun _ => rfl

theorem bind (h : Alike x x') (h' : Alike y y') :
    Alike (x >>= fun _ => y) (x' >>= fun _ => y') := by
  intro w w' hw
  have hfirst := h w w' hw
  rw [bind_apply, bind_apply]
  cases hx : x w with
  | error failure t =>
    cases hx' : x' w' with
    | error failure' t' => simpa only [hx, hx'] using hfirst
    | ok u t' => simp [hx, hx', ending] at hfirst
  | ok u t =>
    cases hx' : x' w' with
    | error failure t' => simp [hx, hx', ending] at hfirst
    | ok u' t' =>
      rw [hx, hx'] at hfirst
      injection hfirst with _ ht
      exact h' t t' ht

theorem declare (name : Token) : Alike (declare name) (declare name) := by
  refine of_blank fun w => ?_
  obtain ⟨scopes, initializing, inFunction, found⟩ := w
  cases scopes with
  | nil => rfl
  | cons scope outer =>
    simp only [Resolver.declare, Walk.blank, get_bind_apply]
    split <;> rfl

theorem forM_declare (params : List Token) :
    Alike (params.forM Resolver.declare) (params.forM Resolver.declare) := by
  induction params with
  | nil => exact pure
  | cons param params ih => exact (declare param).bind ih

theorem inScope (h : Alike x x') : Alike (inScope x) (inScope x') :=
  (of_blank fun _ => rfl).bind (h.bind (of_blank fun _ => rfl))

theorem inInitializer (name : Token) (h : Alike x x') :
    Alike (inInitializer name x) (inInitializer name x') :=
  (of_blank fun _ => rfl).bind (h.bind (of_blank fun _ => rfl))

theorem inFunction (params : List Token) (h : Alike x x') :
    Alike (inFunction params x) (inFunction params x') := by
  intro w w' hw
  have houtside : w.inFunction = w'.inFunction := (Walk.mk.inj hw).2.2.1
  simp only [Resolver.inFunction, get_bind_apply, houtside]
  refine inScope ?_ w w' hw
  exact (of_blank fun _ => rfl).bind ((forM_declare params).bind (h.bind (of_blank fun _ => rfl)))

theorem bindAt (site site' : Site) (kind : ReferenceKind) (name : Token) :
    Alike (Resolver.bind site kind name) (Resolver.bind site' kind name) := by
  have hblank : ∀ site w, ending (Resolver.bind site kind name w) = .ok () w.blank := by
    intro site w
    simp only [Resolver.bind, modify_apply, ending]
    split <;> rfl
  intro w w' hw
  rw [hblank, hblank, hw]

theorem read (site site' : Site) (name : Token) : Alike (read site name) (read site' name) := by
  intro w w' hw
  have hsame : w.initializing = w'.initializing := (Walk.mk.inj hw).2.1
  simp only [Resolver.read, get_bind_apply, hsame]
  split
  · exact fail _ _ w w' hw
  · exact bindAt site site' _ _ w w' hw

/-- A walk through an expression goes the same way for any two numberings. -/
theorem expression (depth : Nat) (e : Expr σ) (a b : Site) :
    Alike (expression depth (e.number a).1) (expression depth (e.number b).1) := by
  induction depth generalizing e a b with
  | zero => exact fail _ _
  | succ depth ih =>
    cases e with
    | literal value => exact pure
    | grouping inner => exact ih inner a b
    | unary operator operand => exact ih operand a b
    | binary left operator right | logical left operator right =>
      exact (ih left a b).bind (ih right _ _)
    | «variable» site name => exact read a b name
    | assignment site name value => exact (ih value _ _).bind (bindAt a b _ _)
    | call callee paren arguments =>
      have hall : ∀ (es : List (Expr σ)) (a b : Site),
          Alike ((Expr.numberAll es a).1.forM (Resolver.expression depth))
            ((Expr.numberAll es b).1.forM (Resolver.expression depth)) := by
        intro es
        induction es with
        | nil => exact fun _ _ => pure
        | cons e es ihes => exact fun a b => (ih e a b).bind (ihes _ _)
      exact (ih callee a b).bind (hall arguments _ _)
    | «foreign» what => exact fault _

/-- A walk through a statement goes the same way for any two numberings. -/
theorem statement (depth : Nat) (s : Stmt σ) (a b : Site) :
    Alike (statement depth (s.number a).1) (statement depth (s.number b).1) := by
  induction depth generalizing s a b with
  | zero => exact fail _ _
  | succ depth ih =>
    have hbody : ∀ (ss : List (Stmt σ)) (a b : Site),
        Alike ((Stmt.numberAll ss a).1.forM (Resolver.statement depth))
          ((Stmt.numberAll ss b).1.forM (Resolver.statement depth)) := by
      intro ss
      induction ss with
      | nil => exact fun _ _ => pure
      | cons s ss ihss => exact fun a b => (ih s a b).bind (ihss _ _)
    cases s with
    | expression value | print value | assert _ value => exact expression depth value a b
    | «variable» name initializer =>
      cases initializer with
      | none => exact (declare name).bind pure
      | some initializer =>
        exact (declare name).bind (inInitializer name (expression depth initializer a b))
    | block site body => exact inScope (hbody body _ _)
    | conditional condition yes no =>
      cases no with
      | none => exact (expression depth condition a b).bind ((ih yes _ _).bind pure)
      | some no => exact (expression depth condition a b).bind ((ih yes _ _).bind (ih no _ _))
    | loop condition body => exact (expression depth condition a b).bind (ih body _ _)
    | function site name params body =>
      exact (declare name).bind (inFunction params (hbody body _ _))
    | «return» keyword value =>
      cases value with
      | none => exact pure
      | some value => exact expression depth value a b
    | endMarker => exact pure
    | «foreign» what => exact fault _

end Alike

end Resolver

end Lox
