import Lox.Proofs.Grammar.AcceptingStatements
import Lox.Proofs.Respelling.Forms

/-!
# What is read is regular

The trees that the parser reads from a text have a meaning at every node: there are no foreign nodes,
and binary operators are those of their levels. The end of the input may stand in the place of a
statement, but not in a block, and so not in the body of a function.
-/
namespace Lox.Grammar
open Lox.Parser (Level levels)
variable {σ : Type}

/-- A level whose operators have a meaning. -/
def LevelRegular (level : Level) : Prop :=
  ∀ (left right : Expr Unit) (operator : Token), operator.kind ∈ level.kinds →
    left.Within .regular → right.Within .regular → (level.node left operator right).Within .regular

theorem levels_regular : ∀ level ∈ levels, LevelRegular level := by
  intro level hlevel left right operator hkind hleft hright
  simp only [levels, List.mem_cons, List.not_mem_nil, or_false] at hlevel
  rcases hlevel with rfl | rfl | rfl | rfl | rfl | rfl
  · exact ⟨hleft, hright⟩
  · exact ⟨hleft, hright⟩
  all_goals
    refine ⟨.inr ?_, hleft, hright⟩
    generalize operator.kind = kind at hkind
    revert kind
    simp [Kind.Calculates, arithmetic?]

mutual

theorem Expression.tree_within : ∀ d : Expression, d.tree.Within .regular
  | .assignment _ _ value => ⟨trivial, value.tree_within⟩
  | .operation operation => operation.tree_within levels_regular

theorem Operation.tree_within : ∀ {tighter : List Level} (d : Operation tighter),
    (∀ level ∈ tighter, LevelRegular level) → d.tree.Within .regular
  | _, .unary operand, _ => operand.tree_within
  | _, .chain first rest, h =>
    rest.tree_within (h _ List.mem_cons_self) (fun level hlevel => h level (List.mem_cons_of_mem _ hlevel))
      (first.tree_within fun level hlevel => h level (List.mem_cons_of_mem _ hlevel))

theorem Operands.tree_within : ∀ {level : Level} {tighter : List Level} (d : Operands level tighter),
    LevelRegular level → (∀ level ∈ tighter, LevelRegular level) →
      ∀ {left : Expr Unit}, left.Within .regular → (d.tree left).Within .regular
  | _, _, .none, _, _, _, hleft => hleft
  | _, _, .more operator operand rest, hlevel, h, _, hleft =>
    rest.tree_within hlevel h (hlevel _ _ operator.1 operator.2 hleft (operand.tree_within h))

theorem Unary.tree_within : ∀ d : Unary, d.tree.Within .regular
  | .operator _ operand => operand.tree_within
  | .call callee calls => calls.tree_within callee.tree_within

theorem Calls.tree_within : ∀ (d : Calls) {callee : Expr Unit}, callee.Within .regular →
    (d.tree callee).Within .regular
  | .none, _, hcallee => hcallee
  | .more _ arguments _ rest, _, hcallee => rest.tree_within ⟨hcallee, arguments.trees_within⟩

theorem Arguments.trees_within : ∀ d : Arguments, Expr.AllWithin .regular d.trees
  | .none => trivial
  | .some first rest => ⟨first.tree_within, rest.trees_within⟩

theorem MoreArguments.trees_within : ∀ d : MoreArguments, Expr.AllWithin .regular d.trees
  | .none => trivial
  | .more _ argument rest => ⟨argument.tree_within, rest.trees_within⟩

theorem Primary.tree_within : ∀ d : Primary, d.tree.Within .regular
  | .literal _ | .true _ | .false _ | .nil _ | .name _ => trivial
  | .group _ inner _ => inner.tree_within

end

/-- No token of the end of the input. -/
def Unended (ts : List Token) : Prop :=
  ∀ t ∈ ts, t.kind ≠ .eof

theorem Unended.left {ts us : List Token} (h : Unended (ts ++ us)) : Unended ts :=
  fun t ht => h t (List.mem_append_left _ ht)

theorem Unended.right {ts us : List Token} (h : Unended (ts ++ us)) : Unended us :=
  fun t ht => h t (List.mem_append_right _ ht)

theorem Unended.tail {t : Token} {ts : List Token} (h : Unended (t :: ts)) : Unended ts :=
  fun u hu => h u (List.mem_cons_of_mem _ hu)

mutual

/-- Without the end of the input among its tokens, a statement has no end marker. -/
theorem Statement.tree_within_of_unended (scope : Option Unit) : ∀ d : Statement,
    Unended d.yield → d.tree.Within .regular False scope
  | .endOfInput token, h => h token.1 List.mem_cons_self token.2
  | .variable _ _ _, _ | .return _ _, _ => trivial
  | .initialized _ _ _ initializer _, _ => ⟨trivial, initializer.tree_within⟩
  | .function _ _ _ _ _ _ body _, h =>
    ⟨⟨trivial, trivial⟩, fun _ _ => trivial,
      Statements.trees_within_of_unended _ body h.tail.tail.tail.right.tail.tail.left⟩
  | .block _ body _, h => Statements.trees_within_of_unended _ body h.tail.left
  | .conditional _ _ condition _ yes, h =>
    ⟨condition.tree_within, yes.tree_within_of_unended scope h.tail.tail.right.tail⟩
  | .alternative _ _ condition _ yes _ no, h =>
    ⟨condition.tree_within, yes.tree_within_of_unended scope h.tail.tail.right.tail.left,
      no.tree_within_of_unended scope h.tail.tail.right.tail.right.tail⟩
  | .loop _ _ condition _ body, h =>
    ⟨condition.tree_within, body.tree_within_of_unended scope h.tail.tail.right.tail⟩
  | .print _ value _, _ | .assert _ value _, _ | .returning _ value _, _
  | .expression value _, _ => value.tree_within

theorem Statements.trees_within_of_unended (scope : Option Unit) : ∀ d : Statements,
    Unended d.yield → Stmt.AllWithin .regular False scope d.trees
  | .none, _ => trivial
  | .more first rest, h =>
    ⟨first.tree_within_of_unended scope h.left, rest.trees_within_of_unended scope h.right⟩

end

/-- What stands before something else than the end of the input is not the end of the input. -/
theorem Takes.unended {s s' : TokenStream} {ts : List Token} (h : Takes s ts s') (hs : s.Genuine)
    (hnext : Next (fun kind => kind ≠ .eof) s') : Unended ts := by
  induction h with
  | nil s => exact fun t ht => by cases ht
  | @cons s s' t ts hhead rest ih =>
    intro u hu
    rcases List.mem_cons.mp hu with rfl | hu
    · obtain ⟨other, hother, hne⟩ := (Takes.cons hhead rest).next_ne_eof hs hnext
      rw [hhead] at hother
      cases hother
      exact hne
    · exact ih hs.tail hnext u hu

/-- The tokens before a word are not the end of the input. -/
theorem Takes.unended_before {s s' : TokenStream} {ts us : List Token} {kind : Kind}
    {word : Word kind} (h : Takes s (ts ++ word.1 :: us) s') (hs : s.Genuine)
    (hkind : kind ≠ .eof) : Unended ts := by
  obtain ⟨u, hts, hrest⟩ := Takes.of_append h
  exact hts.unended hs (hrest.next_word fun h => hkind (word.2 ▸ h))

/-- What is taken from a text has end markers outside of blocks only. -/
theorem Statement.tree_within (scope : Option Unit) : ∀ (d : Statement) {s s' : TokenStream},
    s.Genuine → Takes s d.yield s' → d.tree.Within .regular True scope
  | .endOfInput _, _, _, _, _ | .variable _ _ _, _, _, _, _ | .return _ _, _, _, _, _ => trivial
  | .initialized _ _ _ initializer _, _, _, _, _ => ⟨trivial, initializer.tree_within⟩
  | .function keyword name left parameters right start body stop, s, s', hs, h => by
    have hwhole : Statement.yield (.function keyword name left parameters right start body stop) =
        (keyword.1 :: name.1 :: left.1 :: (parameters.yield ++ right.1 :: start.1 :: body.yield)) ++
          stop.1 :: [] := by
      simp [Statement.yield]
    rw [hwhole] at h
    have hunended := Takes.unended_before h hs (by decide)
    exact ⟨⟨trivial, trivial⟩, fun _ _ => trivial,
      Statements.trees_within_of_unended _ body hunended.tail.tail.tail.right.tail.tail⟩
  | .block start body stop, s, s', hs, h => by
    have hunended : Unended (start.1 :: body.yield) := Takes.unended_before h hs (by decide)
    exact Stmt.AllWithin.ending _ _ (Statements.trees_within_of_unended _ body hunended.tail)
  | .conditional _ _ condition _ yes, s, s', hs, h => by
    obtain ⟨_, h⟩ := h.uncons
    obtain ⟨_, h⟩ := h.uncons
    obtain ⟨u, hcondition, h⟩ := Takes.of_append h
    obtain ⟨_, h⟩ := h.uncons
    exact ⟨condition.tree_within,
      yes.tree_within scope (hcondition.genuine hs.tail.tail).tail h⟩
  | .alternative _ _ condition _ yes _ no, s, s', hs, h => by
    obtain ⟨_, h⟩ := h.uncons
    obtain ⟨_, h⟩ := h.uncons
    obtain ⟨u, hcondition, h⟩ := Takes.of_append h
    obtain ⟨_, h⟩ := h.uncons
    obtain ⟨v, hyes, h⟩ := Takes.of_append h
    obtain ⟨_, h⟩ := h.uncons
    have hu := (hcondition.genuine hs.tail.tail).tail
    exact ⟨condition.tree_within, yes.tree_within scope hu hyes,
      no.tree_within scope (hyes.genuine hu).tail h⟩
  | .loop _ _ condition _ body, s, s', hs, h => by
    obtain ⟨_, h⟩ := h.uncons
    obtain ⟨_, h⟩ := h.uncons
    obtain ⟨u, hcondition, h⟩ := Takes.of_append h
    obtain ⟨_, h⟩ := h.uncons
    exact ⟨condition.tree_within,
      body.tree_within scope (hcondition.genuine hs.tail.tail).tail h⟩
  | .print _ value _, _, _, _, _ | .assert _ value _, _, _, _, _ | .returning _ value _, _, _, _, _
  | .expression value _, _, _, _, _ => value.tree_within

/-- The statements that are read from a text are regular. -/
theorem takeStatement_within {depth : Nat} {s rest : TokenStream} {tree : Stmt Unit}
    (hs : s.Genuine) (h : s.takeStatement depth = (.ok tree, rest)) :
    tree.Within .regular True none := by
  unfold TokenStream.takeStatement at h
  cases hstatement : Parser.statement depth s with
  | error error t =>
    rw [hstatement] at h
    cases h
  | ok other t =>
    rw [hstatement] at h
    cases h
    obtain ⟨d, htakes, rfl, -⟩ := statement_sound depth hstatement
    exact d.tree_within none hs htakes

end Lox.Grammar
