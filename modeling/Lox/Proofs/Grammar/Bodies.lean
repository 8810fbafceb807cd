import Lox.Proofs.Grammar.Lockstep

/-!
# Statements without a body

The end of the input is read as a statement, so it may stand in the place of the body of a conditional
or a loop. Where it does not, a statement ends with a token of its own, and all of its tokens come
before the end of the input.
-/
namespace Lox
variable {σ : Type}

/-- Whether a statement is the end of the input. -/
def Stmt.isEnd : Stmt σ → Bool
  | .endMarker => true
  | _ => false

mutual

/-- Whether the end of the input stands in the place of a body somewhere in a statement. -/
def Stmt.lacksBody : Stmt σ → Bool
  | .conditional _ yes none => yes.isEnd || yes.lacksBody
  | .conditional _ yes (some no) => yes.isEnd || yes.lacksBody || no.isEnd || no.lacksBody
  | .loop _ body => body.isEnd || body.lacksBody
  | .block _ body | .function _ _ _ body => Stmt.anyLacksBody body
  | _ => false

/-- Whether it does somewhere in some statements. -/
def Stmt.anyLacksBody : List (Stmt σ) → Bool
  | [] => false
  | s :: ss => s.lacksBody || Stmt.anyLacksBody ss

end

/-- Whether a statement ends with a conditional that an `else` could still belong to. -/
def Stmt.awaitsElse : Stmt σ → Bool
  | .conditional _ _ none => true
  | .conditional _ _ (some no) => no.awaitsElse
  | .loop _ body => body.awaitsElse
  | _ => false

namespace Grammar
variable {s s' rest : TokenStream} {depth : Nat}

theorem Statement.isEnd_tree (d : Statement) : d.tree.isEnd = d.isEnd := by
  cases d <;> rfl

theorem Statement.awaitsElse_tree : ∀ d : Statement, d.tree.awaitsElse = d.isOpen
  | .conditional .. => rfl
  | .alternative _ _ _ _ _ _ no => no.awaitsElse_tree
  | .loop _ _ _ _ body => body.awaitsElse_tree
  | .endOfInput _ => rfl
  | .variable .. => rfl
  | .initialized .. => rfl
  | .function .. => rfl
  | .block .. => rfl
  | .print .. => rfl
  | .assert .. => rfl
  | .return .. => rfl
  | .returning .. => rfl
  | .expression .. => rfl

/-- With all bodies, a statement ends with a token that is not the end of the input. -/
theorem Statement.last_of_bodies : ∀ d : Statement, d.tree.isEnd = false → d.tree.lacksBody = false →
    ∃ (front : List Token) (kind : Kind) (word : Word kind),
      d.yield = front ++ [word.1] ∧ kind ≠ .eof
  | .endOfInput _, hend, _ => by cases hend
  | .variable keyword name semicolon, _, _ =>
    ⟨[keyword.1, name.1], _, semicolon, rfl, by decide⟩
  | .initialized keyword name equals initializer semicolon, _, _ =>
    ⟨keyword.1 :: name.1 :: equals.1 :: initializer.yield, _, semicolon, rfl, by decide⟩
  | .function keyword name left parameters right start body stop, _, _ =>
    ⟨keyword.1 :: name.1 :: left.1 :: (parameters.yield ++ right.1 :: start.1 :: body.yield), _, stop,
      by simp [Statement.yield], by decide⟩
  | .block start body stop, _, _ => ⟨start.1 :: body.yield, _, stop, rfl, by decide⟩
  | .conditional keyword left condition right yes, _, hbody => by
    obtain ⟨hend, hyes⟩ : yes.tree.isEnd = false ∧ yes.tree.lacksBody = false := by
      simpa [Statement.tree, Stmt.lacksBody] using hbody
    obtain ⟨front, kind, word, hyield, hkind⟩ := yes.last_of_bodies hend hyes
    exact ⟨keyword.1 :: left.1 :: (condition.yield ++ right.1 :: front), kind, word,
      by simp [Statement.yield, hyield], hkind⟩
  | .alternative keyword left condition right yes otherwise no, _, hbody => by
    obtain ⟨⟨-, hend⟩, hno⟩ : ((yes.tree.isEnd = false ∧ yes.tree.lacksBody = false) ∧
        no.tree.isEnd = false) ∧ no.tree.lacksBody = false := by
      simpa [Statement.tree, Stmt.lacksBody] using hbody
    obtain ⟨front, kind, word, hyield, hkind⟩ := no.last_of_bodies hend hno
    exact ⟨keyword.1 :: left.1 :: (condition.yield ++ right.1 :: (yes.yield ++ otherwise.1 :: front)),
      kind, word, by simp [Statement.yield, hyield], hkind⟩
  | .loop keyword left condition right body, _, hbody => by
    obtain ⟨hend, hbody⟩ : body.tree.isEnd = false ∧ body.tree.lacksBody = false := by
      simpa [Statement.tree, Stmt.lacksBody] using hbody
    obtain ⟨front, kind, word, hyield, hkind⟩ := body.last_of_bodies hend hbody
    exact ⟨keyword.1 :: left.1 :: (condition.yield ++ right.1 :: front), kind, word,
      by simp [Statement.yield, hyield], hkind⟩
  | .print keyword value semicolon, _, _ => ⟨keyword.1 :: value.yield, _, semicolon, rfl, by decide⟩
  | .assert keyword value semicolon, _, _ => ⟨keyword.1 :: value.yield, _, semicolon, rfl, by decide⟩
  | .return keyword semicolon, _, _ => ⟨[keyword.1], _, semicolon, rfl, by decide⟩
  | .returning keyword value semicolon, _, _ =>
    ⟨keyword.1 :: value.yield, _, semicolon, rfl, by decide⟩
  | .expression value semicolon, _, _ => ⟨value.yield, _, semicolon, rfl, by decide⟩

/-- Such a statement of a text does not take the end of the input. -/
theorem Statement.unended_of_takes {d : Statement} (hs : s.Genuine) (h : Takes s d.yield s')
    (hend : d.tree ≠ .endMarker) (hbody : d.tree.lacksBody = false) : Unended d.yield := by
  have hisEnd : d.tree.isEnd = false := by
    rw [d.isEnd_tree, Bool.eq_false_iff]
    exact fun hisEnd => hend (Statement.tree_of_isEnd hisEnd)
  obtain ⟨front, kind, word, hyield, hkind⟩ := d.last_of_bodies hisEnd hbody
  rw [hyield] at h ⊢
  intro t ht
  rcases List.mem_append.mp ht with hfront | hlast
  · exact h.unended_before hs hkind t hfront
  · rw [List.mem_singleton.mp hlast, word.2]
    exact hkind

/-- What is read of a text before its end, with all bodies, contains no end marker. -/
theorem takeStatement_within_of_bodies {tree : Stmt Unit} (hs : s.Genuine) (hpending : s.pending ≠ [])
    (h : s.takeStatement depth = (.ok tree, rest)) (hbody : tree.lacksBody = false) :
    tree.Within .regular False none := by
  have hend : tree ≠ .endMarker := by
    rintro rfl
    exact hpending (hs.pending_eq_nil_of_endMarker h)
  unfold TokenStream.takeStatement at h
  cases hrun : Parser.statement depth s with
  | error error s' =>
    rw [hrun] at h
    cases h
  | ok other s' =>
    rw [hrun] at h
    cases h
    obtain ⟨d, htakes, rfl, -⟩ := statement_sound depth hrun
    exact d.tree_within_of_unended none (Statement.unended_of_takes hs htakes hend hbody)

end Grammar

end Lox
