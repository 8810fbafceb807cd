import Lox.Proofs.Grammar.Nesting
import Lox.Proofs.Respelling.Lines

/-!
# Derivations with other tokens

The parser looks at the kinds of tokens and copies tokens into trees, but of a number it takes the
literal only. So each token of a derivation may be put on another line, and each number may be spelled
in another way: the tree is the same on other lines.
-/
namespace Lox

/-- Other tokens of the same kinds with the same literals: they may be on other lines, and numbers may
have other lexemes. -/
structure Rewording where
  token : Token → Token
  line : Int → Int
  kind : ∀ t, (token t).kind = t.kind
  literal : ∀ t, (token t).literal = t.literal
  lexeme : ∀ t, t.kind ≠ .number → token t = { t with line := line t.line }

namespace Grammar
open Lox.Parser (Level levels)
variable (ρ : Rewording)

/-- A word in another form. -/
def Word.reword {kind : Kind} (w : Word kind) : Word kind :=
  ⟨ρ.token w.1, (ρ.kind w.1).trans w.2⟩

/-- A word of one of some kinds in another form. -/
def OneOf.reword {kinds : List Kind} (w : OneOf kinds) : OneOf kinds :=
  ⟨ρ.token w.1, (ρ.kind w.1).symm ▸ w.2⟩

theorem Word.reword_eq {kind : Kind} (w : Word kind) (h : kind ≠ .number) :
    (Word.reword ρ w).1 = (Respelling.lines ρ.line : Respelling Unit).token w.1 :=
  ρ.lexeme w.1 (by rw [w.2]; exact h)

theorem OneOf.reword_eq {kinds : List Kind} (w : OneOf kinds) (h : .number ∉ kinds) :
    (OneOf.reword ρ w).1 = (Respelling.lines ρ.line : Respelling Unit).token w.1 :=
  ρ.lexeme w.1 fun heq => h (heq ▸ w.2)

mutual

/-- An expression with other tokens. -/
def Expression.reword : Expression → Expression
  | .assignment name equals value =>
    .assignment (Word.reword ρ name) (Word.reword ρ equals) value.reword
  | .operation operation => .operation operation.reword

/-- Operators and operands with other tokens. -/
def Operation.reword : {tighter : List Level} → Operation tighter → Operation tighter
  | _, .unary operand => .unary operand.reword
  | _, .chain first rest => .chain first.reword rest.reword

/-- Operators and operands behind the first operand with other tokens. -/
def Operands.reword : {level : Level} → {tighter : List Level} → Operands level tighter →
    Operands level tighter
  | _, _, .none => .none
  | _, _, .more operator operand rest => .more (OneOf.reword ρ operator) operand.reword rest.reword

/-- A unary expression with other tokens. -/
def Unary.reword : Unary → Unary
  | .operator operator operand => .operator (OneOf.reword ρ operator) operand.reword
  | .call callee calls => .call callee.reword calls.reword

/-- Lists of arguments with other tokens. -/
def Calls.reword : Calls → Calls
  | .none => .none
  | .more left arguments right rest =>
    .more (Word.reword ρ left) arguments.reword (Word.reword ρ right) rest.reword

/-- Arguments with other tokens. -/
def Arguments.reword : Arguments → Arguments
  | .none => .none
  | .some first rest => .some first.reword rest.reword

/-- Arguments behind the first one with other tokens. -/
def MoreArguments.reword : MoreArguments → MoreArguments
  | .none => .none
  | .more comma argument rest => .more (Word.reword ρ comma) argument.reword rest.reword

/-- An expression without operators, with other tokens. -/
def Primary.reword : Primary → Primary
  | .literal token => .literal (OneOf.reword ρ token)
  | .true token => .true (Word.reword ρ token)
  | .false token => .false (Word.reword ρ token)
  | .nil token => .nil (Word.reword ρ token)
  | .name token => .name (Word.reword ρ token)
  | .group left inner right => .group (Word.reword ρ left) inner.reword (Word.reword ρ right)

end

/-- Parameters with other tokens. -/
def Parameters.reword : Parameters → Parameters
  | .none => .none
  | .some first rest =>
    .some (Word.reword ρ first) (rest.map fun (comma, name) => (Word.reword ρ comma, Word.reword ρ name))

mutual

/-- A statement with other tokens. -/
def Statement.reword : Statement → Statement
  | .endOfInput token => .endOfInput (Word.reword ρ token)
  | .variable keyword name semicolon =>
    .variable (Word.reword ρ keyword) (Word.reword ρ name) (Word.reword ρ semicolon)
  | .initialized keyword name equals initializer semicolon =>
    .initialized (Word.reword ρ keyword) (Word.reword ρ name) (Word.reword ρ equals)
      (initializer.reword ρ) (Word.reword ρ semicolon)
  | .function keyword name left parameters right start body stop =>
    .function (Word.reword ρ keyword) (Word.reword ρ name) (Word.reword ρ left) (parameters.reword ρ)
      (Word.reword ρ right) (Word.reword ρ start) body.reword (Word.reword ρ stop)
  | .block start body stop => .block (Word.reword ρ start) body.reword (Word.reword ρ stop)
  | .conditional keyword left condition right yes =>
    .conditional (Word.reword ρ keyword) (Word.reword ρ left) (condition.reword ρ) (Word.reword ρ right)
      yes.reword
  | .alternative keyword left condition right yes otherwise no =>
    .alternative (Word.reword ρ keyword) (Word.reword ρ left) (condition.reword ρ) (Word.reword ρ right)
      yes.reword (Word.reword ρ otherwise) no.reword
  | .loop keyword left condition right body =>
    .loop (Word.reword ρ keyword) (Word.reword ρ left) (condition.reword ρ) (Word.reword ρ right)
      body.reword
  | .print keyword value semicolon =>
    .print (Word.reword ρ keyword) (value.reword ρ) (Word.reword ρ semicolon)
  | .assert keyword condition semicolon =>
    .assert (Word.reword ρ keyword) (condition.reword ρ) (Word.reword ρ semicolon)
  | .return keyword semicolon => .return (Word.reword ρ keyword) (Word.reword ρ semicolon)
  | .returning keyword value semicolon =>
    .returning (Word.reword ρ keyword) (value.reword ρ) (Word.reword ρ semicolon)
  | .expression value semicolon => .expression (value.reword ρ) (Word.reword ρ semicolon)

/-- Statements with other tokens. -/
def Statements.reword : Statements → Statements
  | .none => .none
  | .more first rest => .more first.reword rest.reword

end

section Yields

@[simp] theorem Word.reword_val {kind : Kind} (w : Word kind) : (Word.reword ρ w).1 = ρ.token w.1 :=
  rfl

@[simp] theorem OneOf.reword_val {kinds : List Kind} (w : OneOf kinds) :
    (OneOf.reword ρ w).1 = ρ.token w.1 :=
  rfl

mutual

theorem Expression.yield_reword : ∀ d : Expression, (d.reword ρ).yield = d.yield.map ρ.token
  | .assignment name equals value => by
    simp [Expression.reword, Expression.yield, value.yield_reword]
  | .operation operation => operation.yield_reword

theorem Operation.yield_reword : ∀ {tighter : List Level} (d : Operation tighter),
    (d.reword ρ).yield = d.yield.map ρ.token
  | _, .unary operand => operand.yield_reword
  | _, .chain first rest => by
    simp [Operation.reword, Operation.yield, first.yield_reword, rest.yield_reword]

theorem Operands.yield_reword : ∀ {level : Level} {tighter : List Level} (d : Operands level tighter),
    (d.reword ρ).yield = d.yield.map ρ.token
  | _, _, .none => rfl
  | _, _, .more operator operand rest => by
    simp [Operands.reword, Operands.yield, operand.yield_reword, rest.yield_reword]

theorem Unary.yield_reword : ∀ d : Unary, (d.reword ρ).yield = d.yield.map ρ.token
  | .operator operator operand => by simp [Unary.reword, Unary.yield, operand.yield_reword]
  | .call callee calls => by
    simp [Unary.reword, Unary.yield, callee.yield_reword, calls.yield_reword]

theorem Calls.yield_reword : ∀ d : Calls, (d.reword ρ).yield = d.yield.map ρ.token
  | .none => rfl
  | .more left arguments right rest => by
    simp [Calls.reword, Calls.yield, arguments.yield_reword, rest.yield_reword]

theorem Arguments.yield_reword : ∀ d : Arguments, (d.reword ρ).yield = d.yield.map ρ.token
  | .none => rfl
  | .some first rest => by
    simp [Arguments.reword, Arguments.yield, first.yield_reword, rest.yield_reword]

theorem MoreArguments.yield_reword : ∀ d : MoreArguments, (d.reword ρ).yield = d.yield.map ρ.token
  | .none => rfl
  | .more comma argument rest => by
    simp [MoreArguments.reword, MoreArguments.yield, argument.yield_reword, rest.yield_reword]

theorem Primary.yield_reword : ∀ d : Primary, (d.reword ρ).yield = d.yield.map ρ.token
  | .literal _ | .true _ | .false _ | .nil _ | .name _ => rfl
  | .group left inner right => by simp [Primary.reword, Primary.yield, inner.yield_reword]

end

theorem Parameters.yield_reword (d : Parameters) : (d.reword ρ).yield = d.yield.map ρ.token := by
  cases d with
  | none => rfl
  | some first rest => simp [reword, yield, List.flatMap_map, List.map_flatMap]

mutual

theorem Statement.yield_reword : ∀ d : Statement, (d.reword ρ).yield = d.yield.map ρ.token
  | .endOfInput _ | .variable _ _ _ | .return _ _ => rfl
  | .initialized _ _ _ value _ | .print _ value _ | .assert _ value _ | .returning _ value _
  | .expression value _ => by
    simp [Statement.reword, Statement.yield, value.yield_reword]
  | .function _ _ _ parameters _ _ body _ => by
    simp [Statement.reword, Statement.yield, parameters.yield_reword, body.yield_reword]
  | .block _ body _ => by simp [Statement.reword, Statement.yield, body.yield_reword]
  | .conditional _ _ condition _ yes | .loop _ _ condition _ yes => by
    simp [Statement.reword, Statement.yield, condition.yield_reword, yes.yield_reword]
  | .alternative _ _ condition _ yes _ no => by
    simp [Statement.reword, Statement.yield, condition.yield_reword, yes.yield_reword,
      no.yield_reword]

theorem Statements.yield_reword : ∀ d : Statements, (d.reword ρ).yield = d.yield.map ρ.token
  | .none => rfl
  | .more first rest => by
    simp [Statements.reword, Statements.yield, first.yield_reword, rest.yield_reword]

end

end Yields

section Trees

/-- A node of a level on another line. -/
theorem node_respell {tighter : List Level} (htighter : tighter ⊆ levels) {level : Level}
    (hlevel : level ∈ tighter) (operator : OneOf level.kinds) (left right : Expr Unit) :
    level.node (left.respell (.lines ρ.line)) (OneOf.reword ρ operator).1
        (right.respell (.lines ρ.line)) =
      (level.node left operator.1 right).respell (.lines ρ.line) := by
  have hmem := htighter hlevel
  have hnumber : .number ∉ level.kinds := by
    simp only [levels, List.mem_cons, List.not_mem_nil, or_false] at hmem
    rcases hmem with rfl | rfl | rfl | rfl | rfl | rfl <;> decide
  rw [OneOf.reword_eq ρ operator hnumber]
  simp only [levels, List.mem_cons, List.not_mem_nil, or_false] at hmem
  rcases hmem with rfl | rfl | rfl | rfl | rfl | rfl <;> rfl

mutual

theorem Expression.tree_reword :
    ∀ d : Expression, (d.reword ρ).tree = d.tree.respell (.lines ρ.line)
  | .assignment name _ value => by
    simp only [Expression.reword, Expression.tree, Expr.respell, value.tree_reword,
      Word.reword_eq ρ name (by decide), Respelling.referring_lines]
  | .operation operation => operation.tree_reword (List.Subset.refl _)

theorem Operation.tree_reword : ∀ {tighter : List Level} (d : Operation tighter),
    tighter ⊆ levels → (d.reword ρ).tree = d.tree.respell (.lines ρ.line)
  | _, .unary operand, _ => operand.tree_reword
  | _, .chain first rest, h => by
    have htail := fun other (hother : other ∈ _) => h (List.mem_cons_of_mem _ hother)
    rw [Operation.reword, Operation.tree, first.tree_reword htail, rest.tree_reword h]
    rfl

theorem Operands.tree_reword : ∀ {level : Level} {tighter : List Level} (d : Operands level tighter),
    level :: tighter ⊆ levels → ∀ left : Expr Unit,
      (d.reword ρ).tree (left.respell (.lines ρ.line)) = (d.tree left).respell (.lines ρ.line)
  | _, _, .none, _, _ => rfl
  | _, _, .more operator operand rest, h, left => by
    have htail := fun other (hother : other ∈ _) => h (List.mem_cons_of_mem _ hother)
    rw [Operands.reword, Operands.tree, operand.tree_reword htail,
      node_respell ρ h List.mem_cons_self, rest.tree_reword h]
    rfl

theorem Unary.tree_reword : ∀ d : Unary, (d.reword ρ).tree = d.tree.respell (.lines ρ.line)
  | .operator operator operand => by
    simp only [Unary.reword, Unary.tree, Expr.respell, operand.tree_reword,
      OneOf.reword_eq ρ operator (by decide)]
  | .call callee calls => by
    rw [Unary.reword, Unary.tree, callee.tree_reword, calls.tree_reword]
    rfl

theorem Calls.tree_reword : ∀ (d : Calls) (callee : Expr Unit),
    (d.reword ρ).tree (callee.respell (.lines ρ.line)) = (d.tree callee).respell (.lines ρ.line)
  | .none, _ => rfl
  | .more _ arguments right rest, callee => by
    have hcall : (Expr.call callee right.1 arguments.trees).respell (.lines ρ.line) =
        .call (callee.respell (.lines ρ.line)) (Word.reword ρ right).1 (arguments.reword ρ).trees := by
      rw [Word.reword_eq ρ right (by decide), arguments.trees_reword]
      rfl
    rw [Calls.reword, Calls.tree, ← hcall, rest.tree_reword]
    rfl

theorem Arguments.trees_reword :
    ∀ d : Arguments, (d.reword ρ).trees = Expr.respellAll (.lines ρ.line) d.trees
  | .none => rfl
  | .some first rest => by
    rw [Arguments.reword, Arguments.trees, first.tree_reword, rest.trees_reword]
    rfl

theorem MoreArguments.trees_reword :
    ∀ d : MoreArguments, (d.reword ρ).trees = Expr.respellAll (.lines ρ.line) d.trees
  | .none => rfl
  | .more _ argument rest => by
    rw [MoreArguments.reword, MoreArguments.trees, argument.tree_reword, rest.trees_reword]
    rfl

theorem Primary.tree_reword : ∀ d : Primary, (d.reword ρ).tree = d.tree.respell (.lines ρ.line)
  | .literal token => by
    simp only [Primary.reword, Primary.tree, Expr.respell, OneOf.reword_val, ρ.literal]
  | .true _ | .false _ | .nil _ => rfl
  | .name token => by
    simp only [Primary.reword, Primary.tree, Expr.respell, Word.reword_eq ρ token (by decide),
      Respelling.referring_lines]
  | .group _ inner _ => by
    rw [Primary.reword, Primary.tree, inner.tree_reword]
    rfl

end

theorem Parameters.names_reword (d : Parameters) : (d.reword ρ).names =
    d.names.map (Respelling.lines ρ.line : Respelling Unit).token := by
  cases d with
  | none => rfl
  | some first rest =>
    have hrest : ∀ pair ∈ rest, (Word.reword ρ pair.2).1 =
        (Respelling.lines ρ.line : Respelling Unit).token pair.2.1 :=
      fun pair _ => Word.reword_eq ρ pair.2 (by decide)
    simp only [reword, names, List.map_cons, List.map_map, Function.comp_def,
      Word.reword_eq ρ first (by decide)]
    exact congrArg _ (List.map_congr_left hrest)

mutual

theorem Statement.tree_reword (scope : Option Unit) :
    ∀ d : Statement, (d.reword ρ).tree = d.tree.respell (.lines ρ.line) scope
  | .endOfInput _ => rfl
  | .variable _ name _ => by
    simp only [Statement.reword, Statement.tree, Stmt.respell, Word.reword_eq ρ name (by decide),
      Respelling.declaring_lines]
  | .initialized _ name _ value _ => by
    simp only [Statement.reword, Statement.tree, Stmt.respell, Word.reword_eq ρ name (by decide),
      Respelling.declaring_lines, value.tree_reword]
  | .function _ name _ parameters _ _ body _ => by
    simp only [Statement.reword, Statement.tree, Stmt.respell, Word.reword_eq ρ name (by decide),
      parameters.names_reword, body.trees_reword (some ())]
    rfl
  | .block _ body _ => by
    simp only [Statement.reword, Statement.tree, Stmt.respell, body.trees_reword (some ())]
  | .conditional _ _ condition _ yes | .loop _ _ condition _ yes => by
    simp only [Statement.reword, Statement.tree, Stmt.respell, condition.tree_reword,
      yes.tree_reword scope]
  | .alternative _ _ condition _ yes _ no => by
    simp only [Statement.reword, Statement.tree, Stmt.respell, condition.tree_reword,
      yes.tree_reword scope, no.tree_reword scope]
  | .print _ value _ | .expression value _ => by
    simp only [Statement.reword, Statement.tree, Stmt.respell, value.tree_reword]
  | .assert keyword value _ | .returning keyword value _ => by
    simp only [Statement.reword, Statement.tree, Stmt.respell, value.tree_reword,
      Word.reword_eq ρ keyword (by decide)]
  | .return keyword _ => by
    simp only [Statement.reword, Statement.tree, Stmt.respell, Word.reword_eq ρ keyword (by decide)]

theorem Statements.trees_reword (scope : Option Unit) :
    ∀ d : Statements, (d.reword ρ).trees = Stmt.respellAll (.lines ρ.line) scope d.trees
  | .none => rfl
  | .more first rest => by
    rw [Statements.reword, Statements.trees, first.tree_reword scope, rest.trees_reword scope]
    rfl

end

end Trees

section Shapes

theorem Statement.isOpen_reword : ∀ d : Statement, (d.reword ρ).isOpen = d.isOpen
  | .alternative _ _ _ _ _ _ no => no.isOpen_reword
  | .loop _ _ _ _ body => body.isOpen_reword
  | .endOfInput _ | .variable .. | .initialized .. | .function .. | .block .. | .conditional ..
  | .print .. | .assert .. | .return .. | .returning .. | .expression .. => rfl

mutual

theorem Statement.near_reword : ∀ d : Statement, d.Near → (d.reword ρ).Near
  | .function _ _ _ _ _ _ body _, h | .block _ body _, h => body.near_reword h
  | .conditional _ _ _ _ yes, h | .loop _ _ _ _ yes, h => yes.near_reword h
  | .alternative _ _ _ _ yes _ no, h =>
    ⟨yes.near_reword h.1, (yes.isOpen_reword ρ).trans h.2.1, no.near_reword h.2.2⟩
  | .endOfInput _, _ | .variable .., _ | .initialized .., _ | .print .., _ | .assert .., _
  | .return .., _ | .returning .., _ | .expression .., _ => trivial

theorem Statements.near_reword : ∀ d : Statements, d.Near → (d.reword ρ).Near
  | .none, _ => trivial
  | .more first rest, h => ⟨first.near_reword h.1, rest.near_reword h.2⟩

end

mutual

theorem Expression.fits_reword : ∀ (d : Expression) (depth : Nat), d.Fits depth → (d.reword ρ).Fits depth
  | .assignment _ _ value, depth + 1, h => ⟨h.1, value.fits_reword depth h.2⟩
  | .operation operation, depth + 1, h => operation.fits_reword depth h
  | .assignment .., 0, h | .operation _, 0, h => h.elim

theorem Operation.fits_reword : ∀ {tighter : List Level} (d : Operation tighter) (depth : Nat),
    d.Fits depth → (d.reword ρ).Fits depth
  | _, .unary operand, depth, h => operand.fits_reword depth h
  | _, .chain first rest, depth, h => ⟨first.fits_reword depth h.1, rest.fits_reword depth h.2⟩

theorem Operands.fits_reword : ∀ {level : Level} {tighter : List Level}
    (d : Operands level tighter) (depth : Nat), d.Fits depth → (d.reword ρ).Fits depth
  | _, _, .none, _, _ => trivial
  | _, _, .more _ operand rest, depth, h =>
    ⟨operand.fits_reword depth h.1, rest.fits_reword depth h.2⟩

theorem Unary.fits_reword : ∀ (d : Unary) (depth : Nat), d.Fits depth → (d.reword ρ).Fits depth
  | .operator _ operand, _, h => ⟨h.1, operand.fits_reword _ h.2⟩
  | .call callee calls, _, h => ⟨h.1, callee.fits_reword _ h.2.1, calls.fits_reword _ h.2.2⟩

theorem Calls.fits_reword : ∀ (d : Calls) (depth : Nat), d.Fits depth → (d.reword ρ).Fits depth
  | .none, _, _ => trivial
  | .more _ arguments _ rest, depth, h =>
    ⟨arguments.fits_reword depth h.1, rest.fits_reword depth h.2⟩

theorem Arguments.fits_reword :
    ∀ (d : Arguments) (depth : Nat), d.Fits depth → (d.reword ρ).Fits depth
  | .none, _, _ => trivial
  | .some first rest, depth, h => ⟨first.fits_reword depth h.1, rest.fits_reword depth h.2⟩

theorem MoreArguments.fits_reword :
    ∀ (d : MoreArguments) (depth : Nat), d.Fits depth → (d.reword ρ).Fits depth
  | .none, _, _ => trivial
  | .more _ argument rest, depth, h =>
    ⟨argument.fits_reword depth h.1, rest.fits_reword depth h.2⟩

theorem Primary.fits_reword : ∀ (d : Primary) (depth : Nat), d.Fits depth → (d.reword ρ).Fits depth
  | .group _ inner _, depth, h => inner.fits_reword depth h
  | .literal _, _, _ | .true _, _, _ | .false _, _, _ | .nil _, _, _ | .name _, _, _ => trivial

end

mutual

theorem Statement.fits_reword : ∀ (d : Statement) (depth : Nat), d.Fits depth → (d.reword ρ).Fits depth
  | .initialized _ _ _ value _, depth + 1, h | .print _ value _, depth + 1, h
  | .assert _ value _, depth + 1, h | .returning _ value _, depth + 1, h
  | .expression value _, depth + 1, h => value.fits_reword ρ depth h
  | .function _ _ _ _ _ _ body _, depth + 1, h | .block _ body _, depth + 1, h =>
    body.fits_reword depth h
  | .conditional _ _ condition _ yes, depth + 1, h | .loop _ _ condition _ yes, depth + 1, h =>
    ⟨condition.fits_reword ρ depth h.1, yes.fits_reword depth h.2⟩
  | .alternative _ _ condition _ yes _ no, depth + 1, h =>
    ⟨condition.fits_reword ρ depth h.1, yes.fits_reword depth h.2.1, no.fits_reword depth h.2.2⟩
  | .endOfInput _, _ + 1, _ | .variable .., _ + 1, _ | .return .., _ + 1, _ => trivial
  | .endOfInput _, 0, h | .variable .., 0, h | .initialized .., 0, h | .function .., 0, h
  | .block .., 0, h | .conditional .., 0, h | .alternative .., 0, h | .loop .., 0, h
  | .print .., 0, h | .assert .., 0, h | .return .., 0, h | .returning .., 0, h
  | .expression .., 0, h => h.elim

theorem Statements.fits_reword :
    ∀ (d : Statements) (depth : Nat), d.Fits depth → (d.reword ρ).Fits depth
  | .none, _, _ => trivial
  | .more first rest, depth, h => ⟨first.fits_reword depth h.1, rest.fits_reword depth h.2⟩

end

end Shapes

end Grammar

end Lox
