import Lox.Proofs.Respelling.Basic
import Lox.Syntax.Formatter
import Lox.Syntax.Printer

/-!
# Lines are not written

Neither the prefix form of a tree nor its program text shows the lines of its tokens, and whether a
tree is too high to be written does not depend on them.
-/
namespace Lox
variable {σ : Type} (line : Int → Int)

mutual

theorem Expr.height_respell_lines : ∀ e : Expr σ, (e.respell (.lines line)).height = e.height
  | .literal _ | .variable _ _ | .foreign _ => rfl
  | .grouping inner => congrArg (· + 1) inner.height_respell_lines
  | .unary _ operand => congrArg (· + 1) operand.height_respell_lines
  | .binary left _ right | .logical left _ right =>
    congrArg₂ (max · · + 1) left.height_respell_lines right.height_respell_lines
  | .assignment _ _ value => congrArg (· + 1) value.height_respell_lines
  | .call callee _ arguments =>
    congrArg₂ (max · · + 1) callee.height_respell_lines (Expr.heights_respellAll_lines arguments)

theorem Expr.heights_respellAll_lines :
    ∀ es : List (Expr σ), Expr.heights (Expr.respellAll (.lines line) es) = Expr.heights es
  | [] => rfl
  | e :: es => congrArg₂ max e.height_respell_lines (Expr.heights_respellAll_lines es)

end

mutual

theorem Stmt.height_respell_lines (scope : Option σ) :
    ∀ s : Stmt σ, (s.respell (.lines line) scope).height = s.height
  | .expression value | .print value | .assert _ value | .variable _ (some value)
  | .return _ (some value) => congrArg (· + 1) (value.height_respell_lines line)
  | .variable _ none | .return _ none | .endMarker | .foreign _ => rfl
  | .block site body | .function site _ _ body =>
    congrArg (· + 1) (Stmt.heights_respellAll_lines (some site) body)
  | .conditional condition yes none | .loop condition yes =>
    congrArg₂ (max · · + 1) (condition.height_respell_lines line) (yes.height_respell_lines scope)
  | .conditional condition yes (some no) =>
    congrArg₂ (max · · + 1) (condition.height_respell_lines line)
      (congrArg₂ max (yes.height_respell_lines scope) (no.height_respell_lines scope))

theorem Stmt.heights_respellAll_lines (scope : Option σ) :
    ∀ ss : List (Stmt σ), Stmt.heights (Stmt.respellAll (.lines line) scope ss) = Stmt.heights ss
  | [] => rfl
  | s :: ss =>
    congrArg₂ max (s.height_respell_lines scope) (Stmt.heights_respellAll_lines scope ss)

end

mutual

theorem Expr.printed_respell_lines : ∀ e : Expr σ, (e.respell (.lines line)).printed = e.printed
  | .literal _ | .variable _ _ | .foreign _ => rfl
  | .grouping inner | .unary _ inner | .assignment _ _ inner => by
    simp only [Expr.respell, Expr.printed, inner.printed_respell_lines, Respelling.token_lexeme,
      Respelling.referring_lines]
  | .binary left _ right | .logical left _ right => by
    simp only [Expr.respell, Expr.printed, left.printed_respell_lines,
      right.printed_respell_lines, Respelling.token_lexeme]
  | .call callee _ arguments => by
    simp only [Expr.respell, Expr.printed, callee.printed_respell_lines,
      Expr.printedAll_respellAll_lines arguments]

theorem Expr.printedAll_respellAll_lines :
    ∀ es : List (Expr σ), Expr.printedAll (Expr.respellAll (.lines line) es) = Expr.printedAll es
  | [] => rfl
  | e :: es => by
    simp only [Expr.respellAll, Expr.printedAll, e.printed_respell_lines,
      Expr.printedAll_respellAll_lines es]

end

mutual

theorem Stmt.printed_respell_lines (scope : Option σ) :
    ∀ s : Stmt σ, (s.respell (.lines line) scope).printed = s.printed
  | .expression value | .print value | .assert _ value | .variable _ (some value)
  | .return _ (some value) => by
    simp only [Stmt.respell, Stmt.printed, value.printed_respell_lines, Respelling.declaring_lines,
      Respelling.token_lexeme]
  | .variable _ none | .return _ none | .endMarker | .foreign _ => rfl
  | .block site body => by
    simp only [Stmt.respell, Stmt.printed, Stmt.printedAll_respellAll_lines (some site) body]
  | .function site _ params body => by
    simp only [Stmt.respell, Stmt.printed, Stmt.printedAll_respellAll_lines (some site) body,
      Respelling.token_lexeme, List.map_map, Function.comp_def, Respelling.declaring_lines]
  | .conditional condition yes none | .loop condition yes => by
    simp only [Stmt.respell, Stmt.printed, condition.printed_respell_lines,
      yes.printed_respell_lines scope]
  | .conditional condition yes (some no) => by
    simp only [Stmt.respell, Stmt.printed, condition.printed_respell_lines,
      yes.printed_respell_lines scope, no.printed_respell_lines scope]

theorem Stmt.printedAll_respellAll_lines (scope : Option σ) : ∀ ss : List (Stmt σ),
    Stmt.printedAll (Stmt.respellAll (.lines line) scope ss) = Stmt.printedAll ss
  | [] => rfl
  | s :: ss => by
    simp only [Stmt.respellAll, Stmt.printedAll, s.printed_respell_lines scope,
      Stmt.printedAll_respellAll_lines scope ss]

end

theorem Stmt.lines_cons {depth : Nat} {s : Stmt σ} (h : s ≠ .endMarker) (ss : List (Stmt σ)) :
    Stmt.lines depth (s :: ss) =
      (do return (indentation depth ++ (← s.source depth)) :: (← Stmt.lines depth ss)) := by
  rw [Stmt.lines]
  exact h

theorem Stmt.respell_ne_endMarker {ρ : Respelling σ} {scope : Option σ} {s : Stmt σ}
    (h : s ≠ .endMarker) : s.respell ρ scope ≠ .endMarker := by
  cases s with
  | endMarker => exact absurd rfl h
  | «variable» _ initializer => cases initializer <;> nofun
  | conditional _ _ no => cases no <;> nofun
  | «return» _ value => cases value <;> nofun
  | _ => nofun

mutual

theorem Expr.source_respell_lines : ∀ e : Expr σ, (e.respell (.lines line)).source = e.source
  | .literal _ | .variable _ _ | .foreign _ => rfl
  | .grouping inner | .unary _ inner | .assignment _ _ inner => by
    simp only [Expr.respell, Expr.source, inner.source_respell_lines, Respelling.token_lexeme,
      Respelling.referring_lines]
  | .binary left _ right | .logical left _ right => by
    simp only [Expr.respell, Expr.source, left.source_respell_lines,
      right.source_respell_lines, Respelling.token_lexeme]
  | .call callee _ arguments => by
    simp only [Expr.respell, Expr.source, callee.source_respell_lines,
      Expr.sources_respellAll_lines arguments]

theorem Expr.sources_respellAll_lines :
    ∀ es : List (Expr σ), Expr.sources (Expr.respellAll (.lines line) es) = Expr.sources es
  | [] => rfl
  | e :: es => by
    simp only [Expr.respellAll, Expr.sources, e.source_respell_lines,
      Expr.sources_respellAll_lines es]

end

mutual

theorem Stmt.source_respell_lines (scope : Option σ) (depth : Nat) :
    ∀ s : Stmt σ, (s.respell (.lines line) scope).source depth = s.source depth
  | .expression value | .print value | .assert _ value | .variable _ (some value)
  | .return _ (some value) => by
    simp only [Stmt.respell, Stmt.source, value.source_respell_lines, Respelling.declaring_lines,
      Respelling.token_lexeme]
  | .variable _ none | .return _ none | .endMarker | .foreign _ => rfl
  | .block site body => by
    simp only [Stmt.respell, Stmt.source, Stmt.lines_respellAll_lines (some site) (depth + 1) body]
  | .function site _ params body => by
    simp only [Stmt.respell, Stmt.source, Stmt.lines_respellAll_lines (some site) (depth + 1) body,
      Respelling.token_lexeme, List.map_map, Function.comp_def, Respelling.declaring_lines]
  | .conditional condition yes none | .loop condition yes => by
    simp only [Stmt.respell, Stmt.source, condition.source_respell_lines,
      yes.source_respell_lines scope depth]
  | .conditional condition yes (some no) => by
    simp only [Stmt.respell, Stmt.source, condition.source_respell_lines,
      yes.source_respell_lines scope depth, no.source_respell_lines scope depth]

theorem Stmt.lines_respellAll_lines (scope : Option σ) (depth : Nat) : ∀ ss : List (Stmt σ),
    Stmt.lines depth (Stmt.respellAll (.lines line) scope ss) = Stmt.lines depth ss
  | [] => rfl
  | s :: ss => by
    have hfirst := s.source_respell_lines scope depth
    have hrest := Stmt.lines_respellAll_lines scope depth ss
    by_cases hend : s = .endMarker
    · subst hend
      simp only [Stmt.respellAll, Stmt.respell, Stmt.lines, hrest]
    · rw [Stmt.respellAll, Stmt.lines_cons hend, Stmt.lines_cons (Stmt.respell_ne_endMarker hend),
        hfirst, hrest]

end

variable (limit : Nat)

theorem Stmt.format_of_ne {limit : Nat} {s : Stmt σ} (h : s ≠ .endMarker) :
    s.format limit = if s.height ≤ limit then s.source 0 else .error .tooHigh := by
  rw [Stmt.format]
  exact h

/-- On other lines a statement has the same program text. -/
theorem Stmt.format_respell_lines (scope : Option σ) (s : Stmt σ) :
    (s.respell (.lines line) scope).format limit = s.format limit := by
  by_cases hend : s = .endMarker
  · subst hend
    rfl
  · rw [Stmt.format_of_ne hend, Stmt.format_of_ne (Stmt.respell_ne_endMarker hend),
      s.height_respell_lines, s.source_respell_lines]

end Lox
