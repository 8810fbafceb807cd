import Lox.Proofs.Decimal.Shown
import Lox.Proofs.Printing.Lexical
import Lox.Proofs.Printing.Sexp

/-!
# Trees as nests of words

The prefix form of a tree is the text of a nest of words: a list for each node, with what tells the
node from others as its first word, and with its parts behind it. A part that a node does not have
leaves no trace, but none of those that it has is empty. The words of trees that are read show where
they end.
-/
namespace Lox
open Sexp (LegibleWord AllLegible)
variable {σ : Type}

section Nests

mutual

/-- The nest of an expression. -/
def Expr.sexp : Expr σ → Sexp
  | .literal value => .word value.printed
  | .grouping inner => .list [.word "group", inner.sexp]
  | .unary operator operand => .list [.word operator.lexeme, operand.sexp]
  | .binary left operator right | .logical left operator right =>
    .list [.word operator.lexeme, left.sexp, right.sexp]
  | .variable _ name => .word name.lexeme
  | .assignment _ name value => .list [.word "=", .word name.lexeme, value.sexp]
  | .call callee _ arguments => .list (.word "call" :: callee.sexp :: Expr.sexps arguments)
  | .foreign _ => .list []

/-- The nests of expressions. -/
def Expr.sexps : List (Expr σ) → List Sexp
  | [] => []
  | e :: es => e.sexp :: Expr.sexps es

end

mutual

/-- The nest of a statement. -/
def Stmt.sexp : Stmt σ → Sexp
  | .expression value => .list [.word ";", value.sexp]
  | .print value => .list [.word "print", value.sexp]
  | .assert _ condition => .list [.word "assert", condition.sexp]
  | .variable name none => .list [.word "var", .word name.lexeme]
  | .variable name (some initializer) =>
    .list [.word "var", .word name.lexeme, initializer.sexp]
  | .block _ body => .list (.word "block" :: Stmt.sexps body)
  | .conditional condition yes none => .list [.word "if", condition.sexp, yes.sexp]
  | .conditional condition yes (some no) =>
    .list [.word "if", condition.sexp, yes.sexp, no.sexp]
  | .loop condition body => .list [.word "while", condition.sexp, body.sexp]
  | .function _ name params body =>
    .list (.word "fun" :: .word name.lexeme :: .list (params.map fun param => .word param.lexeme) ::
      Stmt.sexps body)
  | .return _ none => .list [.word "return"]
  | .return _ (some value) => .list [.word "return", value.sexp]
  | .endMarker => .list [.word "end"]
  | .foreign _ => .list []

/-- The nests of statements. -/
def Stmt.sexps : List (Stmt σ) → List Sexp
  | [] => []
  | s :: ss => s.sexp :: Stmt.sexps ss

end

end Nests

section Legible
open Lexer

theorem legibleWord_of_isWordPart {text : List Char} (hne : text ≠ [])
    (h : ∀ c ∈ text, isWordPart c = true) : LegibleWord text := by
  refine .plain hne fun c hc hother => ?_
  have hpart := h c hc
  simp only [List.mem_cons, List.not_mem_nil, or_false] at hother
  rcases hother with rfl | rfl | rfl | rfl <;> exact absurd hpart (by decide)

/-- The tokens that are no parentheses show where they end; numbers are not written as in the text. -/
theorem Lexer.Lexeme.legible {text : List Char} {kind : Kind} {literal : Option Atom}
    (h : Lexeme text (.ok (kind, literal))) (hkind : kind ∉ [.leftParen, .rightParen, .number]) :
    LegibleWord text := by
  generalize hfound : Except.ok (kind, literal) = found at h
  cases h with
  | symbol hmem =>
    have hall : symbols.all (fun entry => [.leftParen, .rightParen, .number].contains entry.2 ||
        !entry.1.isEmpty && entry.1.all fun d => !([' ', '(', ')', '"'].contains d)) = true := by
      decide
    cases hfound
    have hentry := List.all_eq_true.mp hall _ hmem
    simp only [Bool.or_eq_true, List.contains_iff_mem, hkind, false_or, Bool.and_eq_true] at hentry
    exact .of_all (by simpa using hentry.1) hentry.2
  | keyword hmem =>
    obtain ⟨-, hstart, hparts⟩ := word_of_mem_keywords _ hmem
    refine legibleWord_of_isWordPart (fun hnil => ?_) (List.all_eq_true.mp hparts)
    rw [hnil] at hstart
    cases hstart
  | identifier hstart hmore =>
    refine legibleWord_of_isWordPart (List.cons_ne_nil _ _) (List.forall_mem_cons.mpr ⟨?_, hmore⟩)
    simp [isWordPart, hstart]
  | string hinside => exact .quoted hinside
  | number =>
    cases hfound
    exact absurd (by decide) hkind
  | tooGreat => cases hfound

theorem Token.LexicalOf.legible {kinds : List Kind} {t : Token} (h : t.LexicalOf kinds)
    (hkinds : ∀ kind ∈ kinds, kind ∉ [.leftParen, .rightParen, .number] := by decide) :
    LegibleWord t.lexeme.toList :=
  h.lexical.legible (hkinds _ h.kind)

theorem Decimal.NumberText.legible {text : List Char} (h : Decimal.NumberText text) :
    LegibleWord text := by
  obtain ⟨c, more, rfl, -⟩ := h.starts
  refine .plain (List.cons_ne_nil _ _) fun d hd hother => ?_
  have hchar := h.chars d hd
  simp only [List.mem_cons (b := ' '), List.mem_cons (b := '('), List.mem_cons (b := ')'),
    List.mem_cons (b := '"'), List.not_mem_nil, or_false] at hother
  rcases hother with rfl | rfl | rfl | rfl <;> exact absurd hchar (by decide)

theorem Atom.Lexical.legible {value : Atom} (h : value.Lexical) :
    LegibleWord value.printed.toList := by
  cases value with
  | nil => exact .of_all
  | bool value => cases value <;> exact .of_all
  | number x =>
    obtain ⟨code, hfinite, rfl⟩ := h
    exact (Decimal.numberText_shown hfinite).legible
  | string text =>
    have htext : (Atom.string text).printed.toList = '"' :: (text.toList ++ ['"']) := by
      simp [Atom.printed]
    rw [htext]
    exact .quoted h

mutual

theorem Expr.legible_sexp : ∀ e : Expr σ, e.Lexical → e.sexp.Legible
  | .literal _, h => h.legible
  | .grouping inner, h => ⟨.of_all, inner.legible_sexp h, trivial⟩
  | .unary _ operand, h => ⟨h.1.legible, operand.legible_sexp h.2, trivial⟩
  | .binary left _ right, h | .logical left _ right, h =>
    ⟨h.1.legible, left.legible_sexp h.2.1, right.legible_sexp h.2.2, trivial⟩
  | .variable _ _, h => Token.LexicalOf.legible h
  | .assignment _ _ value, h => ⟨.of_all, h.1.legible, value.legible_sexp h.2, trivial⟩
  | .call callee _ arguments, h =>
    ⟨.of_all, callee.legible_sexp h.2.1, Expr.legible_sexps arguments h.2.2⟩

theorem Expr.legible_sexps : ∀ es : List (Expr σ), Expr.AllLexical es → AllLegible (Expr.sexps es)
  | [], _ => trivial
  | e :: es, h => ⟨e.legible_sexp h.1, Expr.legible_sexps es h.2⟩

end

theorem legible_params : ∀ params : List Token, (∀ param ∈ params, param.LexicalOf [.identifier]) →
    AllLegible (params.map fun param => .word param.lexeme)
  | [], _ => trivial
  | param :: params, h =>
    ⟨(h param List.mem_cons_self).legible,
      legible_params params fun other hother => h other (List.mem_cons_of_mem _ hother)⟩

mutual

theorem Stmt.legible_sexp : ∀ s : Stmt σ, s.Lexical → s.sexp.Legible
  | .expression value, h | .print value, h => ⟨.of_all, value.legible_sexp h, trivial⟩
  | .assert _ condition, h => ⟨.of_all, condition.legible_sexp h.2, trivial⟩
  | .variable _ none, h => ⟨.of_all, Token.LexicalOf.legible h, trivial⟩
  | .variable _ (some initializer), h =>
    ⟨.of_all, h.1.legible, initializer.legible_sexp h.2, trivial⟩
  | .block _ body, h => ⟨.of_all, Stmt.legible_sexps body h⟩
  | .conditional condition yes none, h =>
    ⟨.of_all, condition.legible_sexp h.1, yes.legible_sexp h.2, trivial⟩
  | .conditional condition yes (some no), h =>
    ⟨.of_all, condition.legible_sexp h.1, yes.legible_sexp h.2.1, no.legible_sexp h.2.2, trivial⟩
  | .loop condition body, h =>
    ⟨.of_all, condition.legible_sexp h.1, body.legible_sexp h.2, trivial⟩
  | .function _ _ params body, h =>
    ⟨.of_all, h.1.legible, legible_params params h.2.1, Stmt.legible_sexps body h.2.2⟩
  | .return _ none, _ | .endMarker, _ => ⟨.of_all, trivial⟩
  | .return _ (some value), h => ⟨.of_all, value.legible_sexp h.2, trivial⟩

theorem Stmt.legible_sexps : ∀ ss : List (Stmt σ), Stmt.AllLexical ss → AllLegible (Stmt.sexps ss)
  | [], _ => trivial
  | s :: ss, h => ⟨s.legible_sexp h.1, Stmt.legible_sexps ss h.2⟩

end

end Legible

section Printed

/-- No part of a legible list is left out. -/
theorem Sexp.AllLegible.filter_texts : ∀ {parts : List Sexp}, AllLegible parts →
    (texts parts).filter (· ≠ "") = texts parts
  | [], _ => rfl
  | part :: parts, h => by
    rw [texts, List.filter_cons_of_pos (by simpa using h.1.text_ne_empty), filter_texts h.2]

/-- The nest of a node is written with parentheses around it. -/
theorem Sexp.Legible.parenthesized_texts {head : String} {parts : List Sexp}
    (h : (list (.word head :: parts)).Legible) :
    parenthesized head (texts parts) = (list (.word head :: parts)).text := by
  rw [parenthesized, h.2.filter_texts]
  rfl

theorem Sexp.texts_params (params : List Token) :
    texts (params.map fun param => .word param.lexeme) = params.map (·.lexeme) := by
  induction params with
  | nil => rfl
  | cons param params ih => rw [List.map_cons, texts, ih, List.map_cons, text]

mutual

/-- The prefix form of an expression is the text of its nest. -/
theorem Expr.printed_eq_text : ∀ e : Expr σ, e.Lexical → e.printed = .ok e.sexp.text
  | .literal _, _ | .variable _ _, _ => rfl
  | .grouping inner, h => by
    rw [Expr.printed, inner.printed_eq_text h]
    exact congrArg Except.ok (legible_sexp (.grouping inner) h).parenthesized_texts
  | .unary operator operand, h => by
    rw [Expr.printed, operand.printed_eq_text h.2]
    exact congrArg Except.ok (legible_sexp (.unary operator operand) h).parenthesized_texts
  | .binary left operator right, h => by
    rw [Expr.printed, left.printed_eq_text h.2.1, right.printed_eq_text h.2.2]
    exact congrArg Except.ok (legible_sexp (.binary left operator right) h).parenthesized_texts
  | .logical left operator right, h => by
    rw [Expr.printed, left.printed_eq_text h.2.1, right.printed_eq_text h.2.2]
    exact congrArg Except.ok (legible_sexp (.logical left operator right) h).parenthesized_texts
  | .assignment site name value, h => by
    rw [Expr.printed, value.printed_eq_text h.2]
    exact congrArg Except.ok (legible_sexp (.assignment site name value) h).parenthesized_texts
  | .call callee paren arguments, h => by
    rw [Expr.printed, callee.printed_eq_text h.2.1, Expr.printedAll_eq_texts arguments h.2.2]
    exact congrArg Except.ok (legible_sexp (.call callee paren arguments) h).parenthesized_texts

theorem Expr.printedAll_eq_texts : ∀ es : List (Expr σ), Expr.AllLexical es →
    Expr.printedAll es = .ok (Sexp.texts (Expr.sexps es))
  | [], _ => rfl
  | e :: es, h => by
    rw [Expr.printedAll, e.printed_eq_text h.1, Expr.printedAll_eq_texts es h.2]
    rfl

end

mutual

/-- The prefix form of a statement is the text of its nest. -/
theorem Stmt.printed_eq_text : ∀ s : Stmt σ, s.Lexical → s.printed = .ok s.sexp.text
  | .expression value, h => by
    rw [Stmt.printed, value.printed_eq_text h]
    exact congrArg Except.ok (legible_sexp (.expression value) h).parenthesized_texts
  | .print value, h => by
    rw [Stmt.printed, value.printed_eq_text h]
    exact congrArg Except.ok (legible_sexp (.print value) h).parenthesized_texts
  | .assert keyword condition, h => by
    rw [Stmt.printed, condition.printed_eq_text h.2]
    exact congrArg Except.ok (legible_sexp (.assert keyword condition) h).parenthesized_texts
  | .variable name none, h =>
    congrArg Except.ok (legible_sexp (.variable name none) h).parenthesized_texts
  | .variable name (some initializer), h => by
    rw [Stmt.printed, initializer.printed_eq_text h.2]
    exact congrArg Except.ok (legible_sexp (.variable name (some initializer)) h).parenthesized_texts
  | .block site body, h => by
    rw [Stmt.printed, Stmt.printedAll_eq_texts body h]
    exact congrArg Except.ok (legible_sexp (.block site body) h).parenthesized_texts
  | .conditional condition yes none, h => by
    rw [Stmt.printed, condition.printed_eq_text h.1, yes.printed_eq_text h.2]
    exact congrArg Except.ok (legible_sexp (.conditional condition yes none) h).parenthesized_texts
  | .conditional condition yes (some no), h => by
    rw [Stmt.printed, no.printed_eq_text h.2.2, condition.printed_eq_text h.1,
      yes.printed_eq_text h.2.1]
    exact congrArg Except.ok
      (legible_sexp (.conditional condition yes (some no)) h).parenthesized_texts
  | .loop condition body, h => by
    rw [Stmt.printed, condition.printed_eq_text h.1, body.printed_eq_text h.2]
    exact congrArg Except.ok (legible_sexp (.loop condition body) h).parenthesized_texts
  | .function site name params body, h => by
    have hnode := (legible_sexp (.function site name params body) h).parenthesized_texts
    rw [Stmt.printed, Stmt.printedAll_eq_texts body h.2.2, ← Sexp.texts_params]
    exact congrArg Except.ok hnode
  | .return keyword none, h =>
    congrArg Except.ok (legible_sexp (.return keyword none) h).parenthesized_texts
  | .return keyword (some value), h => by
    rw [Stmt.printed, value.printed_eq_text h.2]
    exact congrArg Except.ok (legible_sexp (.return keyword (some value)) h).parenthesized_texts
  | .endMarker, _ => rfl

theorem Stmt.printedAll_eq_texts : ∀ ss : List (Stmt σ), Stmt.AllLexical ss →
    Stmt.printedAll ss = .ok (Sexp.texts (Stmt.sexps ss))
  | [], _ => rfl
  | s :: ss, h => by
    rw [Stmt.printedAll, s.printed_eq_text h.1, Stmt.printedAll_eq_texts ss h.2]
    rfl

end

end Printed

end Lox
