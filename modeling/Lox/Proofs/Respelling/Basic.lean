import Lox.Proofs.Store
import Lox.Proofs.Scoping.Visits

/-!
# Other spellings of a text

A text may be laid out on other lines, and a variable may be given another name, without a change in
what the text does. A respelling says how: which line becomes which, how each scope spells the names
that it declares, and how each reference spells the name that it refers to. Trees, values and stores
are respelled throughout; sites, kinds and literals stay.
-/
namespace Lox
variable {σ : Type}

/-- Other lines and other names. -/
structure Respelling (σ : Type) where
  line : Int → Int
  /-- The spelling of the name that the reference at a site refers to. -/
  reference : σ → String → String
  /-- The spelling of a variable that a scope declares; the outermost scope has no site. -/
  declared : Option σ → String → String

namespace Respelling

/-- A token on another line. -/
def token (ρ : Respelling σ) (t : Token) : Token :=
  { t with line := ρ.line t.line }

/-- The name of a reference. -/
def referring (ρ : Respelling σ) (site : σ) (t : Token) : Token :=
  { ρ.token t with lexeme := ρ.reference site t.lexeme }

/-- The name of a variable that a scope declares. -/
def declaring (ρ : Respelling σ) (scope : Option σ) (t : Token) : Token :=
  { ρ.token t with lexeme := ρ.declared scope t.lexeme }

/-- Other lines and the same names. -/
def lines (line : Int → Int) : Respelling σ :=
  ⟨line, fun _ name => name, fun _ name => name⟩

/-- The text as it stands. -/
def none : Respelling σ :=
  lines id

@[simp] theorem token_kind (ρ : Respelling σ) (t : Token) : (ρ.token t).kind = t.kind := rfl

@[simp] theorem token_lexeme (ρ : Respelling σ) (t : Token) : (ρ.token t).lexeme = t.lexeme := rfl

@[simp] theorem token_line (ρ : Respelling σ) (t : Token) :
    (ρ.token t).line = ρ.line t.line := rfl

@[simp] theorem referring_lexeme (ρ : Respelling σ) (site : σ) (t : Token) :
    (ρ.referring site t).lexeme = ρ.reference site t.lexeme := rfl

@[simp] theorem referring_line (ρ : Respelling σ) (site : σ) (t : Token) :
    (ρ.referring site t).line = ρ.line t.line := rfl

@[simp] theorem declaring_lexeme (ρ : Respelling σ) (scope : Option σ) (t : Token) :
    (ρ.declaring scope t).lexeme = ρ.declared scope t.lexeme := rfl

@[simp] theorem declaring_line (ρ : Respelling σ) (scope : Option σ) (t : Token) :
    (ρ.declaring scope t).line = ρ.line t.line := rfl

@[simp] theorem referring_lines (line : Int → Int) (site : σ) (t : Token) :
    (lines line).referring site t = (lines line : Respelling σ).token t := rfl

@[simp] theorem declaring_lines (line : Int → Int) (scope : Option σ) (t : Token) :
    (lines line).declaring scope t = (lines line : Respelling σ).token t := rfl

@[simp] theorem token_none (t : Token) : (none : Respelling σ).token t = t := rfl

end Respelling

mutual

/-- An expression in another spelling. -/
def Expr.respell (ρ : Respelling σ) : Expr σ → Expr σ
  | .literal value => .literal value
  | .grouping inner => .grouping (inner.respell ρ)
  | .unary operator operand => .unary (ρ.token operator) (operand.respell ρ)
  | .binary left operator right =>
    .binary (left.respell ρ) (ρ.token operator) (right.respell ρ)
  | .logical left operator right =>
    .logical (left.respell ρ) (ρ.token operator) (right.respell ρ)
  | .variable site name => .variable site (ρ.referring site name)
  | .assignment site name value => .assignment site (ρ.referring site name) (value.respell ρ)
  | .call callee paren arguments =>
    .call (callee.respell ρ) (ρ.token paren) (Expr.respellAll ρ arguments)
  | .foreign what => .foreign what

/-- Expressions in another spelling. -/
def Expr.respellAll (ρ : Respelling σ) : List (Expr σ) → List (Expr σ)
  | [] => []
  | e :: es => e.respell ρ :: Expr.respellAll ρ es

end

mutual

/-- A statement that stands directly in `scope`, in another spelling. The names of functions stay:
they are printed. -/
def Stmt.respell (ρ : Respelling σ) (scope : Option σ) : Stmt σ → Stmt σ
  | .expression value => .expression (value.respell ρ)
  | .print value => .print (value.respell ρ)
  | .assert keyword condition => .assert (ρ.token keyword) (condition.respell ρ)
  | .variable name none => .variable (ρ.declaring scope name) none
  | .variable name (some initializer) =>
    .variable (ρ.declaring scope name) (some (initializer.respell ρ))
  | .block site body => .block site (Stmt.respellAll ρ (some site) body)
  | .conditional condition yes none =>
    .conditional (condition.respell ρ) (yes.respell ρ scope) none
  | .conditional condition yes (some no) =>
    .conditional (condition.respell ρ) (yes.respell ρ scope) (some (no.respell ρ scope))
  | .loop condition body => .loop (condition.respell ρ) (body.respell ρ scope)
  | .function site name params body =>
    .function site (ρ.token name) (params.map (ρ.declaring (some site)))
      (Stmt.respellAll ρ (some site) body)
  | .return keyword none => .return (ρ.token keyword) none
  | .return keyword (some value) => .return (ρ.token keyword) (some (value.respell ρ))
  | .endMarker => .endMarker
  | .foreign what => .foreign what

/-- Statements that stand directly in `scope`, in another spelling. -/
def Stmt.respellAll (ρ : Respelling σ) (scope : Option σ) : List (Stmt σ) → List (Stmt σ)
  | [] => []
  | s :: ss => s.respell ρ scope :: Stmt.respellAll ρ scope ss

end

theorem Expr.respellAll_eq_map (ρ : Respelling σ) (es : List (Expr σ)) :
    Expr.respellAll ρ es = es.map (Expr.respell ρ) := by
  induction es with
  | nil => rfl
  | cons e es ih => rw [respellAll, ih, List.map_cons]

theorem Stmt.respellAll_eq_map (ρ : Respelling σ) (scope : Option σ) (ss : List (Stmt σ)) :
    Stmt.respellAll ρ scope ss = ss.map (Stmt.respell ρ scope) := by
  induction ss with
  | nil => rfl
  | cons s ss ih => rw [respellAll, ih, List.map_cons]

mutual

@[simp] theorem Expr.respell_none : ∀ e : Expr σ, e.respell .none = e
  | .literal _ | .foreign _ | .variable _ _ => rfl
  | .grouping inner => congrArg Expr.grouping inner.respell_none
  | .unary operator operand => congrArg (Expr.unary operator) operand.respell_none
  | .binary left operator right =>
    congrArg₂ (Expr.binary · operator ·) left.respell_none right.respell_none
  | .logical left operator right =>
    congrArg₂ (Expr.logical · operator ·) left.respell_none right.respell_none
  | .assignment site name value => congrArg (Expr.assignment site name) value.respell_none
  | .call callee paren arguments =>
    congrArg₂ (Expr.call · paren ·) callee.respell_none (Expr.respellAll_none arguments)

@[simp] theorem Expr.respellAll_none : ∀ es : List (Expr σ), Expr.respellAll .none es = es
  | [] => rfl
  | e :: es => congrArg₂ List.cons e.respell_none (Expr.respellAll_none es)

end

mutual

@[simp] theorem Stmt.respell_none (scope : Option σ) : ∀ s : Stmt σ, s.respell .none scope = s
  | .expression value => congrArg Stmt.expression value.respell_none
  | .print value => congrArg Stmt.print value.respell_none
  | .assert keyword condition => congrArg (Stmt.assert keyword) condition.respell_none
  | .variable _ none | .return _ none | .endMarker | .foreign _ => rfl
  | .variable name (some initializer) =>
    congrArg (Stmt.variable name ∘ some) initializer.respell_none
  | .block site body => congrArg (Stmt.block site) (Stmt.respellAll_none (some site) body)
  | .conditional condition yes none =>
    congrArg₂ (Stmt.conditional · · none) condition.respell_none (yes.respell_none scope)
  | .conditional condition yes (some no) => by
    rw [Stmt.respell, condition.respell_none, yes.respell_none scope, no.respell_none scope]
  | .loop condition body =>
    congrArg₂ Stmt.loop condition.respell_none (body.respell_none scope)
  | .function site name params body => by
    have hparams : params.map (Respelling.none.declaring (some site)) = params := List.map_id params
    rw [Stmt.respell, hparams, Stmt.respellAll_none (some site) body, Respelling.token_none]
  | .return keyword (some value) => congrArg (Stmt.return keyword ∘ some) value.respell_none

@[simp] theorem Stmt.respellAll_none (scope : Option σ) :
    ∀ ss : List (Stmt σ), Stmt.respellAll .none scope ss = ss
  | [] => rfl
  | s :: ss => congrArg₂ List.cons (s.respell_none scope) (Stmt.respellAll_none scope ss)

end

section Values
variable (ρ : Respelling Site)

/-- A function in another spelling. -/
def Closure.respell (f : Closure) : Closure where
  site := f.site
  name := ρ.token f.name
  params := f.params.map (ρ.declaring (some f.site))
  body := Stmt.respellAll ρ (some f.site) f.body
  frame := f.frame

/-- A value in another spelling: atoms have none. -/
def Value.respell : Value → Value
  | .closure f => .closure (f.respell ρ)
  | .atom value => .atom value
  | .native f => .native f

/-- A frame in another spelling: its names are those of its scope. -/
def Frame.respell (f : Frame) : Frame :=
  { f with bindings := f.bindings.map fun b => (ρ.declared f.origin b.1, b.2.respell ρ) }

/-- A store in another spelling. -/
def Store.respell (s : Store) : Store :=
  ⟨s.frames.map (Frame.respell ρ)⟩

end Values

namespace Value
variable (ρ : Respelling Site)

@[simp] theorem respell_atom (value : Atom) : (atom value).respell ρ = atom value := rfl

@[simp] theorem respell_nil : nil.respell ρ = nil := rfl

@[simp] theorem isTruthy_respell (v : Value) : (v.respell ρ).isTruthy = v.isTruthy := by
  cases v <;> rfl

@[simp] theorem shown_respell (v : Value) : (v.respell ρ).shown = v.shown := by
  cases v <;> rfl

@[simp] theorem equals_respell (v w : Value) : (v.respell ρ).equals (w.respell ρ) = v.equals w := by
  cases v <;> cases w <;> rfl

@[simp] theorem arity?_respell (v : Value) : (v.respell ρ).arity? = v.arity? := by
  cases v with
  | closure f => exact congrArg some (List.length_map _)
  | atom value => rfl
  | native f => rfl

@[simp] theorem respell_none (v : Value) : v.respell .none = v := by
  cases v with
  | closure f =>
    have hparams : f.params.map (Respelling.none.declaring (some f.site)) = f.params :=
      List.map_id f.params
    simp [respell, Closure.respell, hparams]
  | atom value => rfl
  | native f => rfl

end Value

namespace Frame
variable (ρ : Respelling Site) {f : Frame} {name : String}

@[simp] theorem outer_respell (f : Frame) : (f.respell ρ).outer = f.outer := rfl

@[simp] theorem origin_respell (f : Frame) : (f.respell ρ).origin = f.origin := rfl

@[simp] theorem respell_none (f : Frame) : f.respell .none = f := by
  have hbindings : f.bindings.map (fun b => (b.1, b.2.respell .none)) = f.bindings := by simp
  exact congrArg (Frame.mk f.outer f.origin) hbindings

theorem respell_define (f : Frame) (name : String) (value : Value) :
    (f.define name value).respell ρ =
      (f.respell ρ).define (ρ.declared f.origin name) (value.respell ρ) := by
  simp [respell, define]

/-- What a frame binds to a name is bound to the other spelling of it. -/
theorem find?_respell (hname : ∀ other ∈ f.names,
    ρ.declared f.origin name = ρ.declared f.origin other → name = other) :
    (f.respell ρ).find? (ρ.declared f.origin name) = (f.find? name).map (Value.respell ρ) := by
  obtain ⟨outer, origin, bindings⟩ := f
  simp only [find?, respell, names] at hname ⊢
  induction bindings with
  | nil => rfl
  | cons b bs ih =>
    have hrest := ih fun other hother => hname other (List.mem_cons_of_mem _ hother)
    rw [List.map_cons, List.lookup_cons, List.lookup_cons, hrest]
    by_cases h : name = b.1
    · simp [h]
    · have hspelled : ρ.declared origin name ≠ ρ.declared origin b.1 :=
        fun heq => h (hname b.1 List.mem_cons_self heq)
      rw [beq_false_of_ne h, beq_false_of_ne hspelled]

theorem respell_update (hname : ∀ other ∈ f.names,
    ρ.declared f.origin name = ρ.declared f.origin other → name = other) (value : Value) :
    (f.update name value).respell ρ =
      (f.respell ρ).update (ρ.declared f.origin name) (value.respell ρ) := by
  simp only [respell, update, List.map_map]
  congr 1
  refine List.map_congr_left fun b hb => ?_
  by_cases h : b.1 = name
  · simp [h]
  · have hspelled : ρ.declared f.origin b.1 ≠ ρ.declared f.origin name :=
      fun heq => h (hname b.1 (List.mem_map_of_mem hb) heq.symm).symm
    simp [h, hspelled]

end Frame

namespace Store
variable (ρ : Respelling Site) {s : Store} {id : FrameId} {name : String} {f : Frame}

@[simp] theorem frame_respell (s : Store) (id : FrameId) :
    (s.respell ρ).frames[id]? = s.frames[id]?.map (Frame.respell ρ) :=
  Array.getElem?_map

@[simp] theorem next_respell (s : Store) : (s.respell ρ).next = s.next :=
  Array.size_map

@[simp] theorem chain_respell (s : Store) (id : FrameId) :
    (s.respell ρ).chain id = s.chain id := by
  simp only [chain, frame_respell]
  cases s.frames[id]? <;> rfl

theorem respell_push (s : Store) (outer : List FrameId) (origin : Option Site) :
    (s.push outer origin).respell ρ = (s.respell ρ).push outer origin := by
  simp [respell, push, Frame.respell]

/-- Stores are the same when their frames are. -/
theorem ext_frames {s t : Store} (h : ∀ id : FrameId, s.frames[id]? = t.frames[id]?) : s = t :=
  congrArg Store.mk (Array.ext_getElem? h)

@[simp] theorem respell_none (s : Store) : s.respell .none = s :=
  ext_frames fun id => by cases h : s.frames[id]? <;> simp [h]

theorem respell_define (hf : s.frames[id]? = some f) (value : Value) :
    (s.define id name value).respell ρ =
      (s.respell ρ).define id (ρ.declared f.origin name) (value.respell ρ) := by
  refine ext_frames fun other => ?_
  simp only [frame_respell, frame_define]
  split
  · rename_i heq
    subst heq
    simp [hf, Frame.respell_define]
  · rfl

theorem respell_write (hf : s.frames[id]? = some f)
    (hname : ∀ other ∈ f.names, ρ.declared f.origin name = ρ.declared f.origin other → name = other)
    (value : Value) :
    (s.write id name value).respell ρ =
      (s.respell ρ).write id (ρ.declared f.origin name) (value.respell ρ) := by
  refine ext_frames fun other => ?_
  simp only [frame_respell, frame_write]
  split
  · rename_i heq
    subst heq
    simp [hf, Frame.respell_update ρ hname]
  · rfl

theorem read?_respell (hf : s.frames[id]? = some f)
    (hname : ∀ other ∈ f.names,
      ρ.declared f.origin name = ρ.declared f.origin other → name = other) :
    (s.respell ρ).read? id (ρ.declared f.origin name) = (s.read? id name).map (Value.respell ρ) := by
  simp [read?, hf, Frame.find?_respell ρ hname]

end Store

end Lox
