import Lox.Proofs.Layout.RoundTrip
import Lox.Proofs.Printing.Prefix

/-!
# Prefix forms read back

The first word of a list tells which node it is, together with the number of its parts: the words of
the lexical grammar are read as tokens again, and a number is read from what is shown of it. So each
nest of words is at most one tree, up to the lines of its tokens, and the prefix form of a tree that
was read from a text determines the tree.
-/
namespace Lox
open Lexer

section Tokens
variable {t : Token} {kind : Kind}

/-- The token that a text is in the lexical grammar, on no line in particular. -/
def Token.ofLexeme? (text : String) : Option Token :=
  match text.toList with
  | [] => none
  | c :: rest =>
    match (span c rest).found with
    | .ok (kind, literal) => some ⟨kind, text, literal, 0⟩
    | .error _ => none

theorem Token.Lexical.ofLexeme? (h : t.Lexical) :
    Token.ofLexeme? t.lexeme = some { t with line := 0 } := by
  obtain ⟨c, more, hlexeme⟩ := h.exists_cons
  have hspan : span c more = ⟨c :: more, [], .ok (t.kind, t.literal)⟩ := by
    unfold Token.Lexical at h
    rw [hlexeme] at h
    exact h.span_eq
  simp only [Token.ofLexeme?, hlexeme, hspan]

/-- A token of a kind that is spelled in one way only. -/
theorem Token.LexicalOf.eq_of_spelling {text : String} {other : Token} (h : t.LexicalOf [kind])
    (hspelling : kind.spelling? = some text) (hother : Token.ofLexeme? text = some other) :
    { t with line := 0 } = other := by
  have hkind : t.kind = kind := List.mem_singleton.mp h.kind
  have htext : t.lexeme = text := h.lexical.lexeme_eq (hkind ▸ hspelling)
  exact Option.some.inj (h.lexical.ofLexeme?.symm.trans (htext ▸ hother))

/-- A numeral that is a token is a number. -/
theorem Lexer.kind_of_numeral {lexeme rest : List Char} {value : Option Float}
    {literal : Option Atom} (h : (numeral lexeme rest value).found = .ok (kind, literal)) :
    kind = .number := by
  cases value <;> cases h
  rfl

/-- Only numbers begin with a digit. -/
theorem Lexer.Lexeme.kind_of_isDigit {c : Char} {more : List Char} {literal : Option Atom}
    (h : Lexeme (c :: more) (.ok (kind, literal))) (hc : isDigit c = true) : kind = .number := by
  have hfound := congrArg Span.found h.span_eq
  rw [span_digit hc, Lexer.number] at hfound
  exact kind_of_numeral hfound

end Tokens

section Expressions

/-- The expression that a single token is. -/
def Expr.ofToken? (t : Token) : Option (Expr Unit) :=
  match t.kind with
  | .kwNil => some (.literal .nil)
  | .kwTrue => some (.literal (.bool true))
  | .kwFalse => some (.literal (.bool false))
  | .string => t.literal.map .literal
  | .identifier => some (.variable () t)
  | _ => none

/-- The expression that a word is. -/
def Expr.ofWord? (text : String) : Option (Expr Unit) :=
  if text.toList.head?.any isDigit then
    (Decimal.read? text.toList).map fun x => .literal (.number x)
  else (Token.ofLexeme? text).bind Expr.ofToken?

/-- The expression with a head and operands. -/
def Expr.ofNode? (head : Token) (operands : List (Expr Unit)) : Option (Expr Unit) :=
  match head.kind, operands with
  | .equal, [.variable _ name, value] => some (.assignment () name value)
  -- The two heads that are no operators are names in the lexical grammar.
  | .identifier, first :: arguments =>
    if head.lexeme = "group" then some (.grouping first)
    else some (.call first ⟨.rightParen, ")", none, 0⟩ arguments)
  | _, [operand] => some (.unary head operand)
  | .kwAnd, [left, right] | .kwOr, [left, right] => some (.logical left head right)
  | _, [left, right] => some (.binary left head right)
  | _, _ => none

namespace Sexp

mutual

/-- The expression that a nest is. -/
def expression? : Sexp → Option (Expr Unit)
  | word text => Expr.ofWord? text
  | list (word head :: parts) => do Expr.ofNode? (← Token.ofLexeme? head) (← expressions? parts)
  | list _ => none

/-- The expressions that nests are. -/
def expressions? : List Sexp → Option (List (Expr Unit))
  | [] => some []
  | part :: parts => do return (← part.expression?) :: (← expressions? parts)

end

variable {head : String} {parts : List Sexp} {t : Token} {es : List (Expr Unit)}

theorem expression?_list (hhead : Token.ofLexeme? head = some t)
    (hparts : expressions? parts = some es) :
    (list (word head :: parts)).expression? = Expr.ofNode? t es := by
  rw [expression?, hhead, hparts]
  rfl

theorem expressions?_cons {part : Sexp} {e : Expr Unit} (hpart : part.expression? = some e)
    (hparts : expressions? parts = some es) : expressions? (part :: parts) = some (e :: es) := by
  rw [expressions?, hpart, hparts]
  rfl

theorem expressions?_one {part : Sexp} {e : Expr Unit} (hpart : part.expression? = some e) :
    expressions? [part] = some [e] :=
  expressions?_cons hpart rfl

end Sexp

theorem ofLexeme?_group : Token.ofLexeme? "group" = some ⟨.identifier, "group", none, 0⟩ := rfl

theorem ofLexeme?_call : Token.ofLexeme? "call" = some ⟨.identifier, "call", none, 0⟩ := rfl

theorem ofLexeme?_equal : Token.ofLexeme? "=" = some ⟨.equal, "=", none, 0⟩ := rfl

namespace Expr
variable {t : Token} {e left right : Expr Unit}

theorem ofWord?_lexeme (h : t.Lexical) (hkind : t.kind ≠ .number) :
    ofWord? t.lexeme = ofToken? { t with line := 0 } := by
  obtain ⟨c, more, hlexeme⟩ := h.exists_cons
  have hdigit : t.lexeme.toList.head?.any isDigit = false := by
    unfold Token.Lexical at h
    rw [hlexeme] at h ⊢
    exact Bool.eq_false_iff.mpr fun hc => hkind (h.kind_of_isDigit hc)
  rw [ofWord?, hdigit, h.ofLexeme?]
  rfl

theorem ofWord?_keyword {text : String} (kind : Kind) (h : (text, kind) ∈ keywords := by decide) :
    ofWord? text = ofToken? ⟨kind, text, none, 0⟩ := by
  have hnumber : ∀ entry ∈ keywords, entry.2 ≠ .number := by decide
  exact ofWord?_lexeme (t := ⟨kind, text, none, 0⟩) (.keyword h) (hnumber _ h)

theorem ofWord?_printed {value : Atom} (h : value.Lexical) :
    ofWord? value.printed = some (.literal value) := by
  cases value with
  | nil => exact ofWord?_keyword .kwNil
  | bool value =>
    cases value with
    | true => exact ofWord?_keyword .kwTrue
    | false => exact ofWord?_keyword .kwFalse
  | number x =>
    obtain ⟨code, hfinite, rfl⟩ := h
    obtain ⟨c, more, htext, hc⟩ := (Decimal.numberText_shown hfinite).starts
    have hdigit : (Decimal.Layout.shown.text (Decimal.ofCode code hfinite)).toList.head?.any
        isDigit = true := by
      rw [htext]
      exact isDigit_of_isDigit hc
    show ofWord? (Decimal.Layout.shown.text (Decimal.ofCode code hfinite)) = _
    rw [ofWord?, if_pos hdigit, Decimal.read?_shown hfinite]
    rfl
  | string text =>
    have hlexical : Token.Lexical ⟨.string, "\"" ++ text ++ "\"", some (.string text), 0⟩ := by
      have hlexeme := Lexeme.string h
      rw [String.ofList_toList] at hlexeme
      simpa [Token.Lexical] using hlexeme
    have hkind : Kind.string ≠ .number := by decide
    have hword := ofWord?_lexeme hlexical hkind
    exact hword

theorem expression?_name (h : t.LexicalOf [.identifier]) :
    (Sexp.word t.lexeme).expression? = some (.variable () { t with line := 0 }) := by
  have hkind : t.kind = .identifier := List.mem_singleton.mp h.kind
  rw [Sexp.expression?, ofWord?_lexeme h.lexical (by simp [hkind]), ofToken?, hkind]

theorem ofNode?_unary (h : t.kind ∈ [.bang, .minus]) :
    ofNode? { t with line := 0 } [e] = some (.unary { t with line := 0 } e) := by
  obtain ⟨kind, lexeme, literal, line⟩ := t
  rcases List.mem_pair.mp h with rfl | rfl <;> rfl

theorem ofNode?_logical (h : t.kind ∈ [.kwAnd, .kwOr]) :
    ofNode? { t with line := 0 } [left, right] =
      some (.logical left { t with line := 0 } right) := by
  obtain ⟨kind, lexeme, literal, line⟩ := t
  rcases List.mem_pair.mp h with rfl | rfl <;> rfl

theorem ofNode?_binary (h : t.kind ∈ calculations) :
    ofNode? { t with line := 0 } [left, right] =
      some (.binary left { t with line := 0 } right) := by
  obtain ⟨kind, lexeme, literal, line⟩ := t
  simp only [calculations, List.mem_cons, List.not_mem_nil, or_false] at h
  rcases h with rfl | rfl | rfl | rfl | rfl | rfl | rfl | rfl | rfl | rfl <;> rfl

end Expr

mutual

/-- The nest of an expression is read as the expression. -/
theorem Expr.expression?_sexp : ∀ e : Expr Unit, e.Lexical →
    e.sexp.expression? = some (e.respell (.lines fun _ => 0))
  | .literal _, h => ofWord?_printed h
  | .variable _ _, h => expression?_name h
  | .grouping inner, h => by
    rw [Expr.sexp, Sexp.expression?_list ofLexeme?_group
      (Sexp.expressions?_one (inner.expression?_sexp h))]
    rfl
  | .unary operator operand, h => by
    rw [Expr.sexp, Sexp.expression?_list h.1.lexical.ofLexeme?
      (Sexp.expressions?_one (operand.expression?_sexp h.2)), ofNode?_unary h.1.kind]
    rfl
  | .binary left operator right, h => by
    rw [Expr.sexp, Sexp.expression?_list h.1.lexical.ofLexeme?
      (Sexp.expressions?_cons (left.expression?_sexp h.2.1)
        (Sexp.expressions?_one (right.expression?_sexp h.2.2))), ofNode?_binary h.1.kind]
    rfl
  | .logical left operator right, h => by
    rw [Expr.sexp, Sexp.expression?_list h.1.lexical.ofLexeme?
      (Sexp.expressions?_cons (left.expression?_sexp h.2.1)
        (Sexp.expressions?_one (right.expression?_sexp h.2.2))), ofNode?_logical h.1.kind]
    rfl
  | .assignment site name value, h => by
    rw [Expr.sexp, Sexp.expression?_list ofLexeme?_equal (Sexp.expressions?_cons
      (expression?_name h.1) (Sexp.expressions?_one (value.expression?_sexp h.2)))]
    rfl
  | .call callee paren arguments, h => by
    have hparen : { paren with line := 0 } = (⟨.rightParen, ")", none, 0⟩ : Token) :=
      h.1.eq_of_spelling rfl rfl
    rw [Expr.sexp, Sexp.expression?_list ofLexeme?_call (Sexp.expressions?_cons
      (callee.expression?_sexp h.2.1) (Expr.expressions?_sexps arguments h.2.2))]
    exact congrArg (fun closing => some (Expr.call _ closing _)) hparen.symm

theorem Expr.expressions?_sexps : ∀ es : List (Expr Unit), Expr.AllLexical es →
    Sexp.expressions? (Expr.sexps es) = some (Expr.respellAll (.lines fun _ => 0) es)
  | [], _ => rfl
  | e :: es, h => Sexp.expressions?_cons (e.expression?_sexp h.1) (Expr.expressions?_sexps es h.2)

end

end Expressions

section Statements

namespace Sexp

/-- The names that words are. -/
def names? : List Sexp → Option (List Token)
  | [] => some []
  | word name :: parts => do return (← Token.ofLexeme? name) :: (← names? parts)
  | list _ :: _ => none

mutual

/-- The statement that a nest is. -/
def statement? : Sexp → Option (Stmt Unit)
  | list [word ";", value] => do return .expression (← value.expression?)
  | list [word "print", value] => do return .print (← value.expression?)
  | list [word "assert", condition] => do
    return .assert ⟨.kwAssert, "assert", none, 0⟩ (← condition.expression?)
  | list [word "var", word name] => do return .variable (← Token.ofLexeme? name) none
  | list [word "var", word name, initializer] => do
    return .variable (← Token.ofLexeme? name) (some (← initializer.expression?))
  | list (word "block" :: body) => do return .block () (← statements? body)
  | list [word "if", condition, yes] => do
    return .conditional (← condition.expression?) (← yes.statement?) none
  | list [word "if", condition, yes, no] => do
    return .conditional (← condition.expression?) (← yes.statement?) (some (← no.statement?))
  | list [word "while", condition, body] => do
    return .loop (← condition.expression?) (← body.statement?)
  | list (word "fun" :: word name :: list params :: body) => do
    return .function () (← Token.ofLexeme? name) (← names? params) (← statements? body)
  | list [word "return"] => some (.return ⟨.kwReturn, "return", none, 0⟩ none)
  | list [word "return", value] => do
    return .return ⟨.kwReturn, "return", none, 0⟩ (some (← value.expression?))
  | list [word "end"] => some .endMarker
  | _ => none

/-- The statements that nests are. -/
def statements? : List Sexp → Option (List (Stmt Unit))
  | [] => some []
  | part :: parts => do return (← part.statement?) :: (← statements? parts)

end

theorem names?_params : ∀ params : List Token, (∀ param ∈ params, param.LexicalOf [.identifier]) →
    names? (params.map fun param => word param.lexeme) =
      some (params.map fun param => { param with line := 0 })
  | [], _ => rfl
  | param :: params, h => by
    obtain ⟨hparam, hrest⟩ := List.forall_mem_cons.mp h
    rw [List.map_cons, names?, hparam.lexical.ofLexeme?, names?_params params hrest]
    rfl

end Sexp

mutual

/-- The nest of a statement is read as the statement. -/
theorem Stmt.statement?_sexp (scope : Option Unit) : ∀ s : Stmt Unit, s.Lexical →
    s.sexp.statement? = some (s.respell (.lines fun _ => 0) scope)
  | .expression value, h | .print value, h => by
    rw [Stmt.sexp, Sexp.statement?, value.expression?_sexp h]
    rfl
  | .assert keyword condition, h => by
    have hkeyword : { keyword with line := 0 } = (⟨.kwAssert, "assert", none, 0⟩ : Token) :=
      h.1.eq_of_spelling rfl rfl
    rw [Stmt.sexp, Sexp.statement?, condition.expression?_sexp h.2, ← hkeyword]
    rfl
  | .variable name none, h => by
    rw [Stmt.sexp, Sexp.statement?, h.lexical.ofLexeme?]
    rfl
  | .variable name (some initializer), h => by
    rw [Stmt.sexp, Sexp.statement?, h.1.lexical.ofLexeme?, initializer.expression?_sexp h.2]
    rfl
  | .block _ body, h => by
    rw [Stmt.sexp, Sexp.statement?, Stmt.statements?_sexps (some ()) body h]
    rfl
  | .conditional condition yes none, h => by
    rw [Stmt.sexp, Sexp.statement?, condition.expression?_sexp h.1, yes.statement?_sexp scope h.2]
    rfl
  | .conditional condition yes (some no), h => by
    rw [Stmt.sexp, Sexp.statement?, condition.expression?_sexp h.1, yes.statement?_sexp scope h.2.1,
      no.statement?_sexp scope h.2.2]
    rfl
  | .loop condition body, h => by
    rw [Stmt.sexp, Sexp.statement?, condition.expression?_sexp h.1, body.statement?_sexp scope h.2]
    rfl
  | .function _ name params body, h => by
    rw [Stmt.sexp, Sexp.statement?, h.1.lexical.ofLexeme?, Sexp.names?_params params h.2.1,
      Stmt.statements?_sexps (some ()) body h.2.2]
    rfl
  | .return keyword none, h => by
    have hkeyword : { keyword with line := 0 } = (⟨.kwReturn, "return", none, 0⟩ : Token) :=
      Token.LexicalOf.eq_of_spelling h rfl rfl
    rw [Stmt.sexp, Sexp.statement?, ← hkeyword]
    rfl
  | .return keyword (some value), h => by
    have hkeyword : { keyword with line := 0 } = (⟨.kwReturn, "return", none, 0⟩ : Token) :=
      h.1.eq_of_spelling rfl rfl
    rw [Stmt.sexp, Sexp.statement?, value.expression?_sexp h.2, ← hkeyword]
    rfl
  | .endMarker, _ => rfl

theorem Stmt.statements?_sexps (scope : Option Unit) : ∀ ss : List (Stmt Unit),
    Stmt.AllLexical ss →
      Sexp.statements? (Stmt.sexps ss) = some (Stmt.respellAll (.lines fun _ => 0) scope ss)
  | [], _ => rfl
  | s :: ss, h => by
    rw [Stmt.sexps, Sexp.statements?, s.statement?_sexp scope h.1,
      Stmt.statements?_sexps scope ss h.2]
    rfl

end

end Statements

section Faithful
variable {source other text text' : String} {depth count depth' count' limit limit' : Nat}
  {first second : Stmt Unit}

theorem Stmt.printed_of_print? {s : Stmt Unit} (h : s.print? limit = .ok text) :
    s.printed = .ok text := by
  unfold Stmt.print? at h
  split at h
  · exact h
  · cases h

/-- Lexical trees with the same prefix form are the same apart from the lines of their tokens. -/
theorem Stmt.Lexical.eq_of_printed (h : first.Lexical) (h' : second.Lexical)
    (heq : first.printed = second.printed) :
    first.respell (.lines fun _ => 0) none = second.respell (.lines fun _ => 0) none := by
  rw [first.printed_eq_text h, second.printed_eq_text h'] at heq
  have hsexp : first.sexp = second.sexp :=
    (first.legible_sexp h).eq_of_text (second.legible_sexp h') (Except.ok.inj heq)
  have hread := first.statement?_sexp none h
  rw [hsexp, second.statement?_sexp none h'] at hread
  exact (Option.some.inj hread).symm

/-- Two statements that are taken from texts, and are not too high, have the same prefix form exactly
if they are the same apart from the lines of their tokens. -/
theorem Stmt.print?_eq_iff (hfirst : (.ok first : Item) ∈ (TokenStream.ofText source).taken depth count)
    (hsecond : (.ok second : Item) ∈ (TokenStream.ofText other).taken depth' count')
    (h : first.print? limit = .ok text) (h' : second.print? limit' = .ok text') :
    text = text' ↔
      first.respell (.lines fun _ => 0) none = second.respell (.lines fun _ => 0) none := by
  have hprinted := Stmt.printed_of_print? h
  have hprinted' := Stmt.printed_of_print? h'
  constructor
  · rintro rfl
    exact (TokenStream.lexical_of_mem_taken hfirst).eq_of_printed
      (TokenStream.lexical_of_mem_taken hsecond) (hprinted.trans hprinted'.symm)
  · intro hsame
    have heq := congrArg Stmt.printed hsame
    rw [Stmt.printed_respell_lines, Stmt.printed_respell_lines, hprinted, hprinted'] at heq
    exact Except.ok.inj heq

/-- A tree with a great number, and with a string that looks like a tree, read from two texts. -/
theorem Stmt.print?_eq_iff_of_layout : ∃ first second : Stmt Unit,
    (.ok first : Item) ∈
      (TokenStream.ofText "x = 100000000000000000000 - (1 - f(\"(1 2)\"));").taken 80 1 ∧
    (.ok second : Item) ∈
      (TokenStream.ofText "x =\n100000000000000000000.0-(1-f(\"(1 2)\"))\n;").taken 80 1 ∧
    first.print? 40 = .ok "(; (= x (- 1e+20 (group (- 1 (call f \"(1 2)\"))))))" ∧
    second.print? 40 = .ok "(; (= x (- 1e+20 (group (- 1 (call f \"(1 2)\"))))))" ∧
    first.respell (.lines fun _ => 0) none = second.respell (.lines fun _ => 0) none := by
  have hfound : ∀ (items : List Item) (text : String),
      items.any (fun item => item.toOption.any fun s => (s.print? 40).toOption == some text) = true →
        ∃ s : Stmt Unit, .ok s ∈ items ∧ s.print? 40 = .ok text := by
    intro items text hany
    obtain ⟨item, hmem, hitem⟩ := List.any_eq_true.mp hany
    cases item with
    | error e => cases hitem
    | ok s =>
      refine ⟨s, hmem, ?_⟩
      rw [Except.toOption, Option.any_some, beq_iff_eq] at hitem
      cases hprint : s.print? 40 with
      | error fault =>
        rw [hprint] at hitem
        cases hitem
      | ok printed =>
        rw [hprint] at hitem
        exact congrArg Except.ok (Option.some.inj hitem)
  obtain ⟨first, hfirst, h⟩ := hfound
    ((TokenStream.ofText "x = 100000000000000000000 - (1 - f(\"(1 2)\"));").taken 80 1)
    "(; (= x (- 1e+20 (group (- 1 (call f \"(1 2)\"))))))" (by decide +kernel)
  obtain ⟨second, hsecond, h'⟩ := hfound
    ((TokenStream.ofText "x =\n100000000000000000000.0-(1-f(\"(1 2)\"))\n;").taken 80 1)
    "(; (= x (- 1e+20 (group (- 1 (call f \"(1 2)\"))))))" (by decide +kernel)
  exact ⟨first, second, hfirst, hsecond, h, h',
    (Stmt.print?_eq_iff hfirst hsecond h h').mp rfl⟩

end Faithful

end Lox
