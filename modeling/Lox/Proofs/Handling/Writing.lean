import Lox.Proofs.Grammar.Bodies
import Lox.Proofs.Respelling.Forms
import Lox.Syntax.Formatter
import Lox.Syntax.Printer

/-!
# Writing what is read

A tree without foreign nodes has a prefix form. It has a program text unless the end of the input
stands in the place of a body: a block and a program leave the line of the end of the input empty, but
a conditional and a loop do not know it as their body.
-/
namespace Lox
variable {σ α β : Type} {lacking lacking' : Bool}

/-- A text is written, or the only thing in the way is the end of the input where something is
lacking. -/
def Written (lacking : Bool) (outcome : Except Fault α) : Prop :=
  if lacking then outcome = .error (.unknownStatement .endMarker) else ∃ text, outcome = .ok text

namespace Written

theorem pure (text : α) : Written false (Pure.pure text : Except Fault α) := ⟨text, rfl⟩

theorem endMarker : Written true (throw (.unknownStatement .endMarker) : Except Fault α) := rfl

/-- One part behind another: what is lacking in the first part is noticed first. -/
theorem bind {outcome : Except Fault α} {rest : α → Except Fault β} (h : Written lacking outcome)
    (hrest : ∀ text, Written lacking' (rest text)) :
    Written (lacking || lacking') (outcome >>= rest) := by
  cases lacking with
  | true =>
    have herror : outcome = .error (.unknownStatement .endMarker) := h
    rw [herror]
    rfl
  | false =>
    obtain ⟨text, rfl⟩ : ∃ text, outcome = .ok text := h
    exact hrest text

/-- A last part that is always written. -/
theorem ended {outcome : Except Fault α} {rest : α → Except Fault β} (h : Written lacking outcome)
    (hrest : ∀ text, Written false (rest text)) : Written lacking (outcome >>= rest) := by
  have hbind := h.bind hrest
  rwa [Bool.or_false] at hbind

end Written

section Forms
variable {F : Forms σ}

mutual

theorem Expr.written_source (hfaults : ¬F.faults) :
    ∀ e : Expr σ, e.Within F → Written false e.source
  | .literal _, _ | .variable _ _, _ => .pure _
  | .grouping inner, he => (inner.written_source hfaults he).ended fun _ => .pure _
  | .unary _ operand, he => (operand.written_source hfaults he).ended fun _ => .pure _
  | .assignment _ _ value, he => (value.written_source hfaults he.2).ended fun _ => .pure _
  | .binary left _ right, he =>
    (left.written_source hfaults he.2.1).bind fun _ =>
      (right.written_source hfaults he.2.2).ended fun _ => .pure _
  | .logical left _ right, he =>
    (left.written_source hfaults he.1).bind fun _ =>
      (right.written_source hfaults he.2).ended fun _ => .pure _
  | .call callee _ arguments, he =>
    (Expr.written_sources hfaults arguments he.2).bind fun _ =>
      (callee.written_source hfaults he.1).ended fun _ => .pure _
  | .foreign _, he => absurd he hfaults

theorem Expr.written_sources (hfaults : ¬F.faults) : ∀ es : List (Expr σ), Expr.AllWithin F es →
    Written false (Expr.sources es)
  | [], _ => .pure _
  | e :: es, hes =>
    (e.written_source hfaults hes.1).bind fun _ =>
      (Expr.written_sources hfaults es hes.2).ended fun _ => .pure _

end

mutual

theorem Expr.written_printed (hfaults : ¬F.faults) :
    ∀ e : Expr σ, e.Within F → Written false e.printed
  | .literal _, _ | .variable _ _, _ => .pure _
  | .grouping inner, he => (inner.written_printed hfaults he).ended fun _ => .pure _
  | .unary _ operand, he => (operand.written_printed hfaults he).ended fun _ => .pure _
  | .assignment _ _ value, he => (value.written_printed hfaults he.2).ended fun _ => .pure _
  | .binary left _ right, he =>
    (left.written_printed hfaults he.2.1).bind fun _ =>
      (right.written_printed hfaults he.2.2).ended fun _ => .pure _
  | .logical left _ right, he =>
    (left.written_printed hfaults he.1).bind fun _ =>
      (right.written_printed hfaults he.2).ended fun _ => .pure _
  | .call callee _ arguments, he =>
    (callee.written_printed hfaults he.1).bind fun _ =>
      (Expr.written_printedAll hfaults arguments he.2).ended fun _ => .pure _
  | .foreign _, he => absurd he hfaults

theorem Expr.written_printedAll (hfaults : ¬F.faults) : ∀ es : List (Expr σ), Expr.AllWithin F es →
    Written false (Expr.printedAll es)
  | [], _ => .pure _
  | e :: es, hes =>
    (e.written_printed hfaults hes.1).bind fun _ =>
      (Expr.written_printedAll hfaults es hes.2).ended fun _ => .pure _

end

mutual

/-- The end of the input has a prefix form wherever it stands. -/
theorem Stmt.written_printed (hfaults : ¬F.faults) {ending : Prop} :
    ∀ (s : Stmt σ) (scope : Option σ),
    s.Within F ending scope → Written false s.printed
  | .expression value, _, hs | .print value, _, hs | .assert _ value, _, hs
  | .return _ (some value), _, hs => (value.written_printed hfaults hs).ended fun _ => .pure _
  | .variable _ none, _, _ | .return _ none, _, _ | .endMarker, _, _ => .pure _
  | .variable _ (some initializer), _, hs =>
    (initializer.written_printed hfaults hs.2).ended fun _ => .pure _
  | .block site body, _, hs =>
    (Stmt.written_printedAll hfaults body (some site) hs).ended fun _ => .pure _
  | .conditional condition yes none, scope, hs =>
    (condition.written_printed hfaults hs.1).bind fun _ =>
      (yes.written_printed hfaults scope hs.2).ended fun _ => .pure _
  | .conditional condition yes (some no), scope, hs =>
    (no.written_printed hfaults scope hs.2.2).bind fun _ =>
      (condition.written_printed hfaults hs.1).bind fun _ =>
        (yes.written_printed hfaults scope hs.2.1).ended fun _ => .pure _
  | .loop condition body, scope, hs =>
    (condition.written_printed hfaults hs.1).bind fun _ =>
      (body.written_printed hfaults scope hs.2).ended fun _ => .pure _
  | .function site _ _ body, _, hs =>
    (Stmt.written_printedAll hfaults body (some site) hs.2.2).ended fun _ => .pure _
  | .foreign _, _, hs => absurd hs hfaults

theorem Stmt.written_printedAll (hfaults : ¬F.faults) {ending : Prop} :
    ∀ (ss : List (Stmt σ)) (scope : Option σ),
    Stmt.AllWithin F ending scope ss → Written false (Stmt.printedAll ss)
  | [], _, _ => .pure _
  | s :: ss, scope, hss =>
    (s.written_printed hfaults scope hss.1).bind fun _ =>
      (Stmt.written_printedAll hfaults ss scope hss.2).ended fun _ => .pure _

end

mutual

/-- The end of the input is lacking where it is the statement itself or stands in the place of a
body. -/
theorem Stmt.written_source (hfaults : ¬F.faults) {ending : Prop} :
    ∀ (s : Stmt σ) (scope : Option σ) (depth : Nat),
    s.Within F ending scope → Written (s.isEnd || s.lacksBody) (s.source depth)
  | .expression value, _, _, hs | .print value, _, _, hs | .assert _ value, _, _, hs
  | .return _ (some value), _, _, hs => (value.written_source hfaults hs).ended fun _ => .pure _
  | .variable _ none, _, _, _ | .return _ none, _, _, _ => .pure _
  | .variable _ (some initializer), _, _, hs =>
    (initializer.written_source hfaults hs.2).ended fun _ => .pure _
  | .block site body, _, depth, hs =>
    (Stmt.written_lines hfaults body (some site) (depth + 1) hs).ended fun _ => .pure _
  | .conditional condition yes none, scope, depth, hs =>
    (condition.written_source hfaults hs.1).bind fun _ =>
      (yes.written_source hfaults scope depth hs.2).ended fun _ => .pure _
  | .conditional condition yes (some no), scope, depth, hs => by
    have hparts := (condition.written_source hfaults hs.1).bind fun condition =>
      (yes.written_source hfaults scope depth hs.2.1).bind fun yes =>
        (no.written_source hfaults scope depth hs.2.2).ended fun no =>
          .pure ("if (" ++ condition ++ ") " ++ yes ++ " else " ++ no)
    have hlacking : (Stmt.conditional condition yes (some no)).lacksBody =
        ((yes.isEnd || yes.lacksBody) || (no.isEnd || no.lacksBody)) := by
      simp [Stmt.lacksBody, Bool.or_assoc]
    rw [hlacking]
    exact hparts
  | .loop condition body, scope, depth, hs =>
    (condition.written_source hfaults hs.1).bind fun _ =>
      (body.written_source hfaults scope depth hs.2).ended fun _ => .pure _
  | .function site _ _ body, _, depth, hs =>
    (Stmt.written_lines hfaults body (some site) (depth + 1) hs.2.2).ended fun _ => .pure _
  | .endMarker, _, _, _ => .endMarker
  | .foreign _, _, _, hs => absurd hs hfaults

/-- In a block the end of the input is an empty line. -/
theorem Stmt.written_lines (hfaults : ¬F.faults) {ending : Prop} :
    ∀ (ss : List (Stmt σ)) (scope : Option σ) (depth : Nat),
    Stmt.AllWithin F ending scope ss → Written (Stmt.anyLacksBody ss) (Stmt.lines depth ss)
  | [], _, _, _ => .pure _
  | s :: ss, scope, depth, hss => by
    have hrest := Stmt.written_lines hfaults ss scope depth hss.2
    have hfirst := s.written_source hfaults scope depth hss.1
    rw [Stmt.anyLacksBody]
    by_cases hend : s = .endMarker
    · subst hend
      rw [Stmt.lines]
      exact hrest.ended fun _ => .pure _
    · have hisEnd : s.isEnd = false := by
        cases s <;> first | rfl | exact absurd rfl hend
      rw [hisEnd, Bool.false_or] at hfirst
      rw [Stmt.lines]
      · exact hfirst.bind fun _ => hrest.ended fun _ => .pure _
      · exact hend

end

end Forms

end Lox
