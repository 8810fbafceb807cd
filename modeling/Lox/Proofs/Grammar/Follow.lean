import Lox.Proofs.Grammar.Derivation

/-!
# What starts a phrase and what follows it

The kinds of the tokens that start an expression or a statement, and of those that may follow one.
The next token decides between the rules of the grammar, because these kinds do not overlap.
-/
namespace Lox.Grammar
open Lox.Parser (Level levels)
variable {P Q : Kind → Prop} {ts r r' : List Token}

/-- There is a first token, and it is of one of some kinds. -/
def StartsIn (kinds : List Kind) (ts : List Token) : Prop :=
  ∃ t rest, ts = t :: rest ∧ t.kind ∈ kinds

theorem StartsIn.append {kinds : List Kind} (h : StartsIn kinds ts) (us : List Token) :
    StartsIn kinds (ts ++ us) := by
  obtain ⟨t, rest, rfl, hkind⟩ := h
  exact ⟨t, rest ++ us, rfl, hkind⟩

theorem StartsIn.of_cons {kinds : List Kind} {t : Token} (h : t.kind ∈ kinds) :
    StartsIn kinds (t :: ts) :=
  ⟨t, ts, rfl, h⟩

theorem StartsIn.of_word {kind : Kind} (w : Word kind) : StartsIn [kind] (w.1 :: ts) :=
  .of_cons (by simp [w.2])

theorem StartsIn.mono {kinds more : List Kind} (h : StartsIn kinds ts) (hsub : kinds ⊆ more) :
    StartsIn more ts := by
  obtain ⟨t, rest, rfl, hkind⟩ := h
  exact .of_cons (hsub hkind)

/-- The next token, if there is one, is of a kind with some property. -/
def Before (P : Kind → Prop) (r : List Token) : Prop :=
  ∀ t ∈ r.head?, P t.kind

theorem Before.of_cons {t : Token} (h : P t.kind) : Before P (t :: ts) := by
  intro other hother
  cases hother
  exact h

theorem Before.head {t : Token} (h : Before P (t :: ts)) : P t.kind :=
  h t rfl

theorem Before.mono (h : Before P ts) (himp : ∀ kind, P kind → Q kind) : Before Q ts :=
  fun t ht => himp t.kind (h t ht)

theorem StartsIn.before {kinds : List Kind} (h : StartsIn kinds ts) (hP : ∀ kind ∈ kinds, P kind) :
    Before P ts := by
  obtain ⟨t, rest, rfl, hkind⟩ := h
  exact .of_cons (hP _ hkind)

/-- What starts with a token of one of some kinds is not what a token of another kind follows. -/
theorem StartsIn.ne_of_before {kinds : List Kind} (h : StartsIn kinds ts) (h' : Before P r)
    (hkinds : ∀ kind ∈ kinds, ¬P kind) : ts ≠ r := by
  rintro rfl
  obtain ⟨t, rest, rfl, hkind⟩ := h
  exact hkinds _ hkind h'.head

theorem StartsIn.ne {kinds others : List Kind} (h : StartsIn kinds ts) (h' : StartsIn others r)
    (hkinds : ∀ kind ∈ kinds, kind ∉ others) : ts ≠ r :=
  h.ne_of_before (P := fun kind => kind ∈ others) (h'.before fun _ hkind => hkind) hkinds

section Follow

/-- The kinds of the tokens that a primary expression starts with. -/
def primaryStarters : List Kind :=
  [.number, .string, .kwTrue, .kwFalse, .kwNil, .identifier, .leftParen]

/-- The kinds of the tokens that an expression starts with. -/
def starters : List Kind :=
  .bang :: .minus :: primaryStarters

/-- A token of this kind continues no call and no operators of these levels. -/
def Closes (tighter : List Level) (kind : Kind) : Prop :=
  kind ≠ .leftParen ∧ ∀ level ∈ tighter, kind ∉ level.kinds

/-- A token of this kind continues no expression. -/
def Ends (kind : Kind) : Prop :=
  kind ≠ .equal ∧ Closes levels kind

/-- No operator belongs to two levels, or is something else than an operator. -/
def Ordered : List Level → Prop
  | [] => True
  | level :: tighter =>
    (∀ kind ∈ level.kinds, kind ≠ .eof ∧ Closes tighter kind) ∧ Ordered tighter

theorem levels_ordered : Ordered levels := by
  simp [Ordered, levels, Closes]

theorem closes_levels_equal : Closes levels .equal := by
  simp [Closes, levels]

theorem ends_semicolon : Ends .semicolon := by
  simp [Ends, Closes, levels]

theorem ends_comma : Ends .comma := by
  simp [Ends, Closes, levels]

theorem ends_rightParen : Ends .rightParen := by
  simp [Ends, Closes, levels]

theorem Closes.tail {level : Level} {tighter : List Level} {kind : Kind}
    (h : Closes (level :: tighter) kind) : Closes tighter kind :=
  ⟨h.1, fun other hother => h.2 other (List.mem_cons_of_mem _ hother)⟩

end Follow

section Starts

/-- The kinds of the tokens that a primary expression of one form starts with. -/
def Primary.kinds : Primary → List Kind
  | .literal _ => [.number, .string]
  | .true _ => [.kwTrue]
  | .false _ => [.kwFalse]
  | .nil _ => [.kwNil]
  | .name _ => [.identifier]
  | .group .. => [.leftParen]

theorem Primary.starts_kinds (d : Primary) : StartsIn d.kinds d.yield := by
  cases d with
  | literal token => exact .of_cons token.2
  | true token => exact .of_word token
  | false token => exact .of_word token
  | nil token => exact .of_word token
  | name token => exact .of_word token
  | group left inner right => exact .of_word left

theorem Primary.kinds_subset (d : Primary) : d.kinds ⊆ primaryStarters := by
  cases d <;> simp [kinds, primaryStarters]

theorem Primary.starts (d : Primary) : StartsIn primaryStarters d.yield :=
  d.starts_kinds.mono d.kinds_subset

theorem primaryStarters_subset : primaryStarters ⊆ starters :=
  fun _ h => List.mem_cons_of_mem _ (List.mem_cons_of_mem _ h)

theorem Unary.starts (d : Unary) : StartsIn starters d.yield := by
  cases d with
  | operator operator operand =>
    have hsub : [Kind.bang, .minus] ⊆ starters := by simp [starters]
    exact .of_cons (hsub operator.2)
  | call callee calls => exact (callee.starts.mono primaryStarters_subset).append _

theorem Operation.starts : ∀ {tighter : List Level} (d : Operation tighter),
    StartsIn starters d.yield
  | _, .unary operand => operand.starts
  | _, .chain first _ => first.starts.append _

theorem Expression.starts (d : Expression) : StartsIn starters d.yield := by
  cases d with
  | assignment name equals value =>
    exact (StartsIn.of_word name).mono (by simp [starters, primaryStarters])
  | operation operation => exact operation.starts

/-- The kinds of the tokens that a statement starts with. -/
def statementStarters : List Kind :=
  [.eof, .kwVar, .kwFun, .leftBrace, .kwIf, .kwWhile, .kwPrint, .kwAssert, .kwReturn] ++ starters

/-- The kinds of the tokens that a statement of one form starts with. -/
def Statement.kinds : Statement → List Kind
  | .endOfInput _ => [.eof]
  | .variable .. | .initialized .. => [.kwVar]
  | .function .. => [.kwFun]
  | .block .. => [.leftBrace]
  | .conditional .. | .alternative .. => [.kwIf]
  | .loop .. => [.kwWhile]
  | .print .. => [.kwPrint]
  | .assert .. => [.kwAssert]
  | .return .. | .returning .. => [.kwReturn]
  | .expression .. => starters

theorem Statement.starts_kinds (d : Statement) : StartsIn d.kinds d.yield := by
  cases d with
  | endOfInput token => exact .of_word token
  | «variable» keyword => exact .of_word keyword
  | initialized keyword => exact .of_word keyword
  | function keyword => exact .of_word keyword
  | block start => exact .of_word start
  | conditional keyword => exact .of_word keyword
  | alternative keyword => exact .of_word keyword
  | loop keyword => exact .of_word keyword
  | print keyword => exact .of_word keyword
  | assert keyword => exact .of_word keyword
  | «return» keyword => exact .of_word keyword
  | returning keyword => exact .of_word keyword
  | expression value semicolon => exact value.starts.append _

theorem Statement.kinds_subset (d : Statement) : d.kinds ⊆ statementStarters := by
  cases d with
  | expression => exact List.subset_append_right _ _
  | _ => simp [kinds, statementStarters]

theorem Statement.starts (d : Statement) : StartsIn statementStarters d.yield :=
  d.starts_kinds.mono d.kinds_subset

end Starts

end Lox.Grammar
