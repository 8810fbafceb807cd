import Lox.Proofs.Layout.Rereading

/-!
# The tokens of trees that are read

Each node of a tree that is read from a text keeps the tokens that tell it from others of its form:
an operator of its level, a name, a parenthesis, a keyword. They are tokens of the lexical grammar.
Literals are those of number and string tokens, so that numbers are finite and have no sign, and
strings have no quotes in them.
-/
namespace Lox

/-- A token of the lexical grammar, of one of some kinds. -/
structure Token.LexicalOf (kinds : List Kind) (t : Token) : Prop where
  kind : t.kind ∈ kinds
  lexical : t.Lexical

/-- A literal of the lexical grammar. -/
def Atom.Lexical : Atom → Prop
  | .nil | .bool _ => True
  | .number value => ∃ (code : Nat) (h : code < Decimal.infinityCode), value = Decimal.ofCode code h
  | .string value => '"' ∉ value.toList

/-- The operators of numbers and of comparisons. -/
def calculations : List Kind :=
  [.bangEqual, .equalEqual, .greater, .greaterEqual, .less, .lessEqual, .minus, .plus, .slash, .star]

section Trees
variable {σ : Type}

mutual

/-- An expression whose tokens are those of the lexical grammar. -/
def Expr.Lexical : Expr σ → Prop
  | .literal value => value.Lexical
  | .grouping inner => inner.Lexical
  | .unary operator operand => operator.LexicalOf [.bang, .minus] ∧ operand.Lexical
  | .binary left operator right =>
    operator.LexicalOf calculations ∧ left.Lexical ∧ right.Lexical
  | .logical left operator right =>
    operator.LexicalOf [.kwAnd, .kwOr] ∧ left.Lexical ∧ right.Lexical
  | .variable _ name => name.LexicalOf [.identifier]
  | .assignment _ name value => name.LexicalOf [.identifier] ∧ value.Lexical
  | .call callee paren arguments =>
    paren.LexicalOf [.rightParen] ∧ callee.Lexical ∧ Expr.AllLexical arguments
  | .foreign _ => False

def Expr.AllLexical : List (Expr σ) → Prop
  | [] => True
  | e :: es => e.Lexical ∧ Expr.AllLexical es

end

mutual

/-- A statement whose tokens are those of the lexical grammar. -/
def Stmt.Lexical : Stmt σ → Prop
  | .expression value | .print value => value.Lexical
  | .assert keyword condition => keyword.LexicalOf [.kwAssert] ∧ condition.Lexical
  | .variable name none => name.LexicalOf [.identifier]
  | .variable name (some initializer) => name.LexicalOf [.identifier] ∧ initializer.Lexical
  | .block _ body => Stmt.AllLexical body
  | .conditional condition yes none => condition.Lexical ∧ yes.Lexical
  | .conditional condition yes (some no) => condition.Lexical ∧ yes.Lexical ∧ no.Lexical
  | .loop condition body => condition.Lexical ∧ body.Lexical
  | .function _ name params body =>
    name.LexicalOf [.identifier] ∧ (∀ param ∈ params, param.LexicalOf [.identifier]) ∧
      Stmt.AllLexical body
  | .return keyword none => keyword.LexicalOf [.kwReturn]
  | .return keyword (some value) => keyword.LexicalOf [.kwReturn] ∧ value.Lexical
  | .endMarker => True
  | .foreign _ => False

def Stmt.AllLexical : List (Stmt σ) → Prop
  | [] => True
  | s :: ss => s.Lexical ∧ Stmt.AllLexical ss

end

end Trees

/-- The literals of tokens. -/
theorem Token.Lexical.literal {t : Token} (h : t.Lexical) : (t.literal.getD .nil).Lexical := by
  obtain ⟨kind, lexeme, literal, line⟩ := t
  unfold Token.Lexical at h
  generalize lexeme.toList = text, hfound : Except.ok (kind, literal) = found at h
  cases h with
  | symbol | keyword | identifier =>
    cases hfound
    trivial
  | string hinside =>
    cases hfound
    simpa [Atom.Lexical] using hinside
  | number _ _ _ _ hfinite =>
    cases hfound
    exact ⟨_, hfinite, rfl⟩
  | tooGreat => cases hfound

namespace Grammar
open Lox.Parser (Level levels)
variable {ts us : List Token}

/-- Tokens of the lexical grammar, the end of the input perhaps among them. -/
def Scanned (ts : List Token) : Prop :=
  ∀ t ∈ ts, t.kind ≠ .eof → t.Lexical

namespace Scanned

theorem left (h : Scanned (ts ++ us)) : Scanned ts :=
  fun t ht => h t (List.mem_append_left _ ht)

theorem right (h : Scanned (ts ++ us)) : Scanned us :=
  fun t ht => h t (List.mem_append_right _ ht)

theorem tail {t : Token} (h : Scanned (t :: ts)) : Scanned ts :=
  fun u hu => h u (List.mem_cons_of_mem _ hu)

theorem oneOf {kinds : List Kind} {t : OneOf kinds} (h : Scanned (t.1 :: ts))
    (heof : .eof ∉ kinds := by decide) : t.1.LexicalOf kinds :=
  ⟨t.2, h t.1 List.mem_cons_self fun heq => heof (heq ▸ t.2)⟩

theorem word {kind : Kind} {t : Word kind} (h : Scanned (t.1 :: ts))
    (heof : kind ≠ .eof := by decide) : t.1.LexicalOf [kind] :=
  ⟨List.mem_singleton.mpr t.2, h t.1 List.mem_cons_self fun heq => heof (t.2.symm.trans heq)⟩

end Scanned

/-- A level whose operators make nodes that know them. -/
def LevelLexical (level : Level) : Prop :=
  .eof ∉ level.kinds ∧ ∀ (left right : Expr Unit) (operator : Token),
    operator.LexicalOf level.kinds → left.Lexical → right.Lexical →
      (level.node left operator right).Lexical

theorem levels_lexical : ∀ level ∈ levels, LevelLexical level := by
  intro level hlevel
  simp only [levels, List.mem_cons, List.not_mem_nil, or_false] at hlevel
  rcases hlevel with rfl | rfl | rfl | rfl | rfl | rfl
  all_goals
    refine ⟨by decide, fun left right operator hoperator hleft hright => ⟨⟨?_, hoperator.lexical⟩,
      hleft, hright⟩⟩
    have hkind := hoperator.kind
    generalize operator.kind = kind at hkind
    revert kind
    decide

mutual

theorem Expression.tree_lexical : ∀ d : Expression, Scanned d.yield → d.tree.Lexical
  | .assignment _ _ value, h => ⟨h.word, value.tree_lexical h.tail.tail⟩
  | .operation operation, h => operation.tree_lexical levels_lexical h

theorem Operation.tree_lexical : ∀ {tighter : List Level} (d : Operation tighter),
    (∀ level ∈ tighter, LevelLexical level) → Scanned d.yield → d.tree.Lexical
  | _, .unary operand, _, h => operand.tree_lexical h
  | _, .chain first rest, hlevels, h => by
    obtain ⟨hlevel, htighter⟩ := List.forall_mem_cons.mp hlevels
    exact rest.tree_lexical hlevel htighter h.right (first.tree_lexical htighter h.left)

theorem Operands.tree_lexical : ∀ {level : Level} {tighter : List Level} (d : Operands level tighter),
    LevelLexical level → (∀ level ∈ tighter, LevelLexical level) → Scanned d.yield →
      ∀ {left : Expr Unit}, left.Lexical → (d.tree left).Lexical
  | _, _, .none, _, _, _, _, hleft => hleft
  | _, _, .more operator operand rest, hlevel, htighter, h, _, hleft =>
    rest.tree_lexical hlevel htighter h.tail.right
      (hlevel.2 _ _ operator.1 (h.oneOf hlevel.1) hleft (operand.tree_lexical htighter h.tail.left))

theorem Unary.tree_lexical : ∀ d : Unary, Scanned d.yield → d.tree.Lexical
  | .operator _ operand, h => ⟨h.oneOf, operand.tree_lexical h.tail⟩
  | .call callee calls, h => calls.tree_lexical h.right (callee.tree_lexical h.left)

theorem Calls.tree_lexical : ∀ (d : Calls), Scanned d.yield → ∀ {callee : Expr Unit},
    callee.Lexical → (d.tree callee).Lexical
  | .none, _, _, hcallee => hcallee
  | .more _ arguments _ rest, h, _, hcallee =>
    rest.tree_lexical h.tail.right.tail
      ⟨h.tail.right.word, hcallee, arguments.trees_lexical h.tail.left⟩

theorem Arguments.trees_lexical : ∀ d : Arguments, Scanned d.yield → Expr.AllLexical d.trees
  | .none, _ => trivial
  | .some first rest, h => ⟨first.tree_lexical h.left, rest.trees_lexical h.right⟩

theorem MoreArguments.trees_lexical : ∀ d : MoreArguments, Scanned d.yield →
    Expr.AllLexical d.trees
  | .none, _ => trivial
  | .more _ argument rest, h =>
    ⟨argument.tree_lexical h.tail.left, rest.trees_lexical h.tail.right⟩

theorem Primary.tree_lexical : ∀ d : Primary, Scanned d.yield → d.tree.Lexical
  | .literal _, h => h.oneOf.lexical.literal
  | .true _, _ | .false _, _ | .nil _, _ => trivial
  | .name _, h => h.word
  | .group _ inner _, h => inner.tree_lexical h.tail.left

end

theorem Parameters.names_lexical : ∀ d : Parameters, Scanned d.yield →
    ∀ name ∈ d.names, name.LexicalOf [.identifier]
  | .none, _ => fun _ hname => absurd hname List.not_mem_nil
  | .some first rest, h => by
    refine List.forall_mem_cons.mpr ⟨h.word, List.forall_mem_map.mpr fun (comma, name) hmem => ?_⟩
    have hpair : Scanned [comma.1, name.1] := fun t ht =>
      h.tail t (List.mem_flatMap.mpr ⟨(comma, name), hmem, ht⟩)
    exact hpair.tail.word

mutual

theorem Statement.tree_lexical : ∀ d : Statement, Scanned d.yield → d.tree.Lexical
  | .endOfInput _, _ => trivial
  | .variable _ name _, h => (h.tail.word : name.1.LexicalOf [.identifier])
  | .initialized _ _ _ initializer _, h =>
    ⟨h.tail.word, initializer.tree_lexical h.tail.tail.tail.left⟩
  | .function _ _ _ parameters _ _ body _, h =>
    ⟨h.tail.word, parameters.names_lexical h.tail.tail.tail.left,
      body.trees_lexical h.tail.tail.tail.right.tail.tail.left⟩
  | .block _ body _, h => body.trees_lexical h.tail.left
  | .conditional _ _ condition _ yes, h =>
    ⟨condition.tree_lexical h.tail.tail.left, yes.tree_lexical h.tail.tail.right.tail⟩
  | .alternative _ _ condition _ yes _ no, h =>
    ⟨condition.tree_lexical h.tail.tail.left, yes.tree_lexical h.tail.tail.right.tail.left,
      no.tree_lexical h.tail.tail.right.tail.right.tail⟩
  | .loop _ _ condition _ body, h =>
    ⟨condition.tree_lexical h.tail.tail.left, body.tree_lexical h.tail.tail.right.tail⟩
  | .print _ value _, h => value.tree_lexical h.tail.left
  | .assert _ condition _, h => ⟨h.word, condition.tree_lexical h.tail.left⟩
  | .return _ _, h => h.word
  | .returning _ value _, h => ⟨h.word, value.tree_lexical h.tail.left⟩
  | .expression value _, h => value.tree_lexical h.left

theorem Statements.trees_lexical : ∀ d : Statements, Scanned d.yield → Stmt.AllLexical d.trees
  | .none, _ => trivial
  | .more first rest, h => ⟨first.tree_lexical h.left, rest.trees_lexical h.right⟩

end

variable {s s' : TokenStream}

/-- What is taken from a stream of tokens of the lexical grammar are such tokens, or it is the end. -/
theorem Takes.scanned (h : Takes s ts s') (hs : ∀ t : Token, .ok t ∈ s.pending → t.Lexical) :
    Scanned ts := by
  induction h with
  | nil => exact fun _ ht => absurd ht List.not_mem_nil
  | @cons s s' t ts hhead _ ih =>
    obtain ⟨pending, lastLine⟩ := s
    cases pending with
    | nil =>
      cases hhead
      exact List.forall_mem_cons.mpr ⟨fun heof => absurd rfl heof, ih hs⟩
    | cons outcome pending =>
      cases hhead
      exact List.forall_mem_cons.mpr ⟨fun _ => hs t List.mem_cons_self,
        ih fun u hu => hs u (List.mem_cons_of_mem _ hu)⟩

end Grammar

namespace TokenStream
variable {s : TokenStream} {depth count : Nat} {statement : Stmt Unit}

theorem lexical_of_mem_pending_taken (hs : ∀ t : Token, .ok t ∈ s.pending → t.Lexical)
    (h : (.ok statement : Item) ∈ s.taken depth count) : statement.Lexical := by
  induction count generalizing s with
  | zero => cases h
  | succ count ih =>
    rcases List.mem_cons.mp h with hfirst | hrest
    · unfold takeStatement at hfirst
      cases hrun : Parser.statement depth s with
      | error error t =>
        rw [hrun] at hfirst
        cases hfirst
      | ok other t =>
        rw [hrun] at hfirst
        cases hfirst
        obtain ⟨d, htakes, rfl, -⟩ := Grammar.statement_sound depth hrun
        exact d.tree_lexical (htakes.scanned hs)
    · refine ih (fun t ht => hs t ?_) hrest
      exact (s.pending_takeStatement_suffix depth).subset ht

/-- The statements that are taken from a text have tokens of the lexical grammar. -/
theorem lexical_of_mem_taken {source : String}
    (h : (.ok statement : Item) ∈ (ofText source).taken depth count) : statement.Lexical :=
  lexical_of_mem_pending_taken (fun _ ht => lexical_of_mem_ofText ht) h

end TokenStream

end Lox
