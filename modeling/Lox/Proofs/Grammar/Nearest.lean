import Lox.Proofs.Grammar.Derivation

/-!
# Every `else` with the nearest conditional

Where a derivation gives an `else` to a conditional further out, the nearest open conditional can
take it instead, and the tokens stay the same. So what has a derivation has one in which every
`else` belongs to the nearest open conditional.
-/
namespace Lox.Grammar

/-- An open statement whose nearest open conditional takes an `else`. -/
def Statement.attach : Statement → Word .kwElse → Statement → Statement
  | .conditional keyword left condition right yes, otherwise, no =>
    if yes.isOpen then .conditional keyword left condition right (yes.attach otherwise no)
    else .alternative keyword left condition right yes otherwise no
  | .alternative keyword left condition right yes other last, otherwise, no =>
    .alternative keyword left condition right yes other (last.attach otherwise no)
  | .loop keyword left condition right body, otherwise, no =>
    .loop keyword left condition right (body.attach otherwise no)
  | d, _, _ => d

section Attach
variable {otherwise : Word .kwElse} {no : Statement}

theorem Statement.yield_attach (d : Statement) (hopen : d.isOpen = true) :
    (d.attach otherwise no).yield = d.yield ++ otherwise.1 :: no.yield := by
  cases d with
  | conditional keyword left condition right yes =>
    unfold attach
    split
    · rename_i hyes
      simp [Statement.yield, yes.yield_attach hyes]
    · simp [Statement.yield]
  | alternative keyword left condition right yes other last =>
    simp [attach, Statement.yield, last.yield_attach hopen]
  | loop keyword left condition right body =>
    simp [attach, Statement.yield, body.yield_attach hopen]
  | _ => cases hopen
termination_by structural d

theorem Statement.near_attach (hno : no.Near) : ∀ (d : Statement), d.Near →
    (d.attach otherwise no).Near
  | .conditional keyword left condition right yes, hnear => by
    unfold attach
    split
    · exact yes.near_attach hno hnear
    · rename_i hopen
      exact ⟨hnear, Bool.eq_false_iff.mpr hopen, hno⟩
  | .alternative keyword left condition right yes other last, hnear =>
    ⟨hnear.1, hnear.2.1, last.near_attach hno hnear.2.2⟩
  | .loop keyword left condition right body, hnear => body.near_attach hno hnear
  | .endOfInput _, hnear => hnear
  | .variable .., hnear => hnear
  | .initialized .., hnear => hnear
  | .function .., hnear => hnear
  | .block .., hnear => hnear
  | .print .., hnear => hnear
  | .assert .., hnear => hnear
  | .return .., hnear => hnear
  | .returning .., hnear => hnear
  | .expression .., hnear => hnear

end Attach

mutual

/-- A statement with every `else` at the nearest open conditional. -/
def Statement.nearest : Statement → Statement
  | .function keyword name left parameters right start body stop =>
    .function keyword name left parameters right start body.nearest stop
  | .block start body stop => .block start body.nearest stop
  | .conditional keyword left condition right yes =>
    .conditional keyword left condition right yes.nearest
  | .alternative keyword left condition right yes otherwise no =>
    if yes.nearest.isOpen then
      .conditional keyword left condition right (yes.nearest.attach otherwise no.nearest)
    else .alternative keyword left condition right yes.nearest otherwise no.nearest
  | .loop keyword left condition right body => .loop keyword left condition right body.nearest
  | d => d

/-- Statements with every `else` at the nearest open conditional. -/
def Statements.nearest : Statements → Statements
  | .none => .none
  | .more first rest => .more first.nearest rest.nearest

end

mutual

theorem Statement.yield_nearest : ∀ (d : Statement), d.nearest.yield = d.yield
  | .function _ _ _ _ _ _ body _ => by
    simp [Statement.nearest, Statement.yield, body.yield_nearest]
  | .block _ body _ => by simp [Statement.nearest, Statement.yield, body.yield_nearest]
  | .conditional _ _ _ _ yes => by simp [Statement.nearest, Statement.yield, yes.yield_nearest]
  | .alternative _ _ _ _ yes _ no => by
    unfold Statement.nearest
    split
    · rename_i hopen
      simp [Statement.yield, Statement.yield_attach _ hopen, yes.yield_nearest, no.yield_nearest]
    · simp [Statement.yield, yes.yield_nearest, no.yield_nearest]
  | .loop _ _ _ _ body => by simp [Statement.nearest, Statement.yield, body.yield_nearest]
  | .endOfInput _ => rfl
  | .variable .. => rfl
  | .initialized .. => rfl
  | .print .. => rfl
  | .assert .. => rfl
  | .return .. => rfl
  | .returning .. => rfl
  | .expression .. => rfl

theorem Statements.yield_nearest : ∀ (d : Statements), d.nearest.yield = d.yield
  | .none => rfl
  | .more first rest => by
    simp [Statements.nearest, Statements.yield, first.yield_nearest, rest.yield_nearest]

end

mutual

theorem Statement.near_nearest : ∀ (d : Statement), d.nearest.Near
  | .function _ _ _ _ _ _ body _ => body.near_nearest
  | .block _ body _ => body.near_nearest
  | .conditional _ _ _ _ yes => yes.near_nearest
  | .alternative _ _ _ _ yes _ no => by
    unfold Statement.nearest
    split
    · exact Statement.near_attach no.near_nearest _ yes.near_nearest
    · rename_i hopen
      exact ⟨yes.near_nearest, Bool.eq_false_iff.mpr hopen, no.near_nearest⟩
  | .loop _ _ _ _ body => body.near_nearest
  | .endOfInput _ => trivial
  | .variable .. => trivial
  | .initialized .. => trivial
  | .print .. => trivial
  | .assert .. => trivial
  | .return .. => trivial
  | .returning .. => trivial
  | .expression .. => trivial

theorem Statements.near_nearest : ∀ (d : Statements), d.nearest.Near
  | .none => trivial
  | .more first rest => ⟨first.near_nearest, rest.near_nearest⟩

end

end Lox.Grammar
