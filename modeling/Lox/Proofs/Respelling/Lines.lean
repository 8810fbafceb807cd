import Lox.Proofs.Respelling.Resolving

/-!
# Other lines

A text that is laid out on other lines has the same trees on other lines. Numbering its sites,
laying it out once more, and passing from one scope to another do not get in the way of that.
-/
namespace Lox
variable {σ τ : Type} (line line' : Int → Int)

mutual

theorem Expr.respell_lines_lines : ∀ e : Expr σ,
    (e.respell (.lines line)).respell (.lines line') = e.respell (.lines (line' ∘ line))
  | .literal _ | .variable _ _ | .foreign _ => rfl
  | .grouping inner => congrArg Expr.grouping inner.respell_lines_lines
  | .unary _ operand => congrArg (Expr.unary _) operand.respell_lines_lines
  | .binary left _ right =>
    congrArg₂ (Expr.binary · _ ·) left.respell_lines_lines right.respell_lines_lines
  | .logical left _ right =>
    congrArg₂ (Expr.logical · _ ·) left.respell_lines_lines right.respell_lines_lines
  | .assignment _ _ value => congrArg (Expr.assignment _ _) value.respell_lines_lines
  | .call callee _ arguments =>
    congrArg₂ (Expr.call · _ ·) callee.respell_lines_lines (Expr.respellAll_lines_lines arguments)

theorem Expr.respellAll_lines_lines : ∀ es : List (Expr σ),
    Expr.respellAll (.lines line') (Expr.respellAll (.lines line) es) =
      Expr.respellAll (.lines (line' ∘ line)) es
  | [] => rfl
  | e :: es => congrArg₂ List.cons e.respell_lines_lines (Expr.respellAll_lines_lines es)

end

/-- On other lines it does not matter in which scope a statement stands. -/
theorem Stmt.respell_lines_scope (scope other : Option σ) : ∀ s : Stmt σ,
    s.respell (.lines line) scope = s.respell (.lines line) other
  | .expression _ | .print _ | .assert _ _ | .variable _ none | .variable _ (some _) | .block _ _
  | .function _ _ _ _ | .return _ none | .return _ (some _) | .endMarker | .foreign _ => rfl
  | .conditional _ yes none => congrArg (Stmt.conditional _ · none) (yes.respell_lines_scope scope other)
  | .conditional _ yes (some no) => by
    rw [Stmt.respell, Stmt.respell, yes.respell_lines_scope scope other,
      no.respell_lines_scope scope other]
  | .loop _ body => congrArg (Stmt.loop _) (body.respell_lines_scope scope other)

theorem Stmt.respellAll_lines_eq_map (scope other : Option σ) (ss : List (Stmt σ)) :
    Stmt.respellAll (.lines line) scope ss = ss.map (Stmt.respell (.lines line) other) := by
  rw [Stmt.respellAll_eq_map]
  exact List.map_congr_left fun s _ => s.respell_lines_scope line scope other

mutual

theorem Stmt.respell_lines_lines (scope : Option σ) : ∀ s : Stmt σ,
    (s.respell (.lines line) scope).respell (.lines line') scope =
      s.respell (.lines (line' ∘ line)) scope
  | .expression value => congrArg Stmt.expression (value.respell_lines_lines line line')
  | .print value => congrArg Stmt.print (value.respell_lines_lines line line')
  | .assert _ condition => congrArg (Stmt.assert _) (condition.respell_lines_lines line line')
  | .variable _ none | .return _ none | .endMarker | .foreign _ => rfl
  | .variable _ (some initializer) =>
    congrArg (Stmt.variable _ ∘ some) (initializer.respell_lines_lines line line')
  | .block site body => congrArg (Stmt.block site) (Stmt.respellAll_lines_lines (some site) body)
  | .conditional condition yes none =>
    congrArg₂ (Stmt.conditional · · none) (condition.respell_lines_lines line line')
      (yes.respell_lines_lines scope)
  | .conditional condition yes (some no) => by
    simp only [Stmt.respell, condition.respell_lines_lines, yes.respell_lines_lines scope,
      no.respell_lines_lines scope]
  | .loop condition body =>
    congrArg₂ Stmt.loop (condition.respell_lines_lines line line') (body.respell_lines_lines scope)
  | .function site name params body => by
    simp only [Stmt.respell, Stmt.respellAll_lines_lines (some site) body, List.map_map]
    rfl
  | .return _ (some value) => congrArg (Stmt.return _ ∘ some) (value.respell_lines_lines line line')

theorem Stmt.respellAll_lines_lines (scope : Option σ) : ∀ ss : List (Stmt σ),
    Stmt.respellAll (.lines line') scope (Stmt.respellAll (.lines line) scope ss) =
      Stmt.respellAll (.lines (line' ∘ line)) scope ss
  | [] => rfl
  | s :: ss => congrArg₂ List.cons (s.respell_lines_lines scope) (Stmt.respellAll_lines_lines scope ss)

end

theorem counting_bind {α β : Type} (x : StateM Site α) (f : α → StateM Site β) (next : Site) :
    (x >>= f) next = f (x next).1 (x next).2 :=
  rfl

theorem counting_pure {α : Type} (a : α) (next : Site) : (pure a : StateM Site α) next = (a, next) :=
  rfl

mutual

/-- On other lines an expression has the same numbers. -/
theorem Expr.number_respell_lines : ∀ (e : Expr σ) (next : Site),
    (e.respell (.lines line)).number next =
      ((e.number next).1.respell (.lines line), (e.number next).2)
  | .literal _, _ | .foreign _, _ | .variable _ _, _ => rfl
  | .grouping inner, next => by
    simp only [Expr.respell, Expr.number, counting_bind, counting_pure,
      inner.number_respell_lines]
  | .unary operator operand, next => by
    simp only [Expr.respell, Expr.number, counting_bind, counting_pure,
      operand.number_respell_lines]
    rfl
  | .binary left operator right, next => by
    simp only [Expr.respell, Expr.number, counting_bind, counting_pure,
      left.number_respell_lines, right.number_respell_lines]
    rfl
  | .logical left operator right, next => by
    simp only [Expr.respell, Expr.number, counting_bind, counting_pure,
      left.number_respell_lines, right.number_respell_lines]
    rfl
  | .assignment _ name value, next => by
    simp only [Expr.respell, Expr.number, counting_bind, counting_pure,
      value.number_respell_lines]
    rfl
  | .call callee paren arguments, next => by
    simp only [Expr.respell, Expr.number, counting_bind, counting_pure,
      callee.number_respell_lines, Expr.numberAll_respell_lines arguments]
    rfl

theorem Expr.numberAll_respell_lines : ∀ (es : List (Expr σ)) (next : Site),
    Expr.numberAll (Expr.respellAll (.lines line) es) next =
      (Expr.respellAll (.lines line) (Expr.numberAll es next).1, (Expr.numberAll es next).2)
  | [], _ => rfl
  | e :: es, next => by
    simp only [Expr.respellAll, Expr.numberAll, counting_bind, counting_pure,
      e.number_respell_lines, Expr.numberAll_respell_lines es]

end

mutual

/-- On other lines a statement has the same numbers. -/
theorem Stmt.number_respell_lines (scope : Option σ) (other : Option Site) :
    ∀ (s : Stmt σ) (next : Site), (s.respell (.lines line) scope).number next =
      ((s.number next).1.respell (.lines line) other, (s.number next).2)
  | .expression value, next | .print value, next => by
    simp only [Stmt.respell, Stmt.number, counting_bind, counting_pure,
      value.number_respell_lines]
  | .assert _ value, next | .variable _ (some value), next | .return _ (some value), next => by
    simp only [Stmt.respell, Stmt.number, counting_bind, counting_pure,
      value.number_respell_lines]
    rfl
  | .variable _ none, _ | .return _ none, _ | .endMarker, _ | .foreign _, _ => rfl
  | .block site body, next => by
    simp only [Stmt.respell, Stmt.number, counting_bind, counting_pure,
      Stmt.numberAll_respell_lines (some site) (some next) body]
    rfl
  | .conditional condition yes none, next => by
    simp only [Stmt.respell, Stmt.number, counting_bind, counting_pure,
      condition.number_respell_lines, yes.number_respell_lines scope other]
  | .conditional condition yes (some no), next => by
    simp only [Stmt.respell, Stmt.number, counting_bind, counting_pure,
      condition.number_respell_lines, yes.number_respell_lines scope other,
      no.number_respell_lines scope other]
  | .loop condition body, next => by
    simp only [Stmt.respell, Stmt.number, counting_bind, counting_pure,
      condition.number_respell_lines, body.number_respell_lines scope other]
  | .function site name params body, next => by
    simp only [Stmt.respell, Stmt.number, counting_bind, counting_pure,
      Stmt.numberAll_respell_lines (some site) (some next) body]
    rfl

theorem Stmt.numberAll_respell_lines (scope : Option σ) (other : Option Site) :
    ∀ (ss : List (Stmt σ)) (next : Site),
      Stmt.numberAll (Stmt.respellAll (.lines line) scope ss) next =
        (Stmt.respellAll (.lines line) other (Stmt.numberAll ss next).1, (Stmt.numberAll ss next).2)
  | [], _ => rfl
  | s :: ss, next => by
    simp only [Stmt.respellAll, Stmt.numberAll, counting_bind, counting_pure,
      s.number_respell_lines scope other, Stmt.numberAll_respell_lines scope other ss]

end

/-- On other lines names stay what they are. -/
theorem Respelling.proper_lines (F : Forms Site) : (Respelling.lines line).Proper F :=
  ⟨fun _ _ h => h, fun _ => rfl⟩

theorem Stmt.spelled_lines (s : Stmt Site) : s.Spelled (.lines line) :=
  fun _ _ => rfl

end Lox
