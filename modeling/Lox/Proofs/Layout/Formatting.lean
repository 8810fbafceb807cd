import Lox.Proofs.Grammar.Nesting
import Lox.Proofs.Layout.Inscribed
import Lox.Proofs.Layout.Texts

/-!
# Program text writes the tokens of a tree

The program text of the tree of a derivation writes the tokens of the derivation one after the other,
and nothing else. Nothing is written twice or left out, parentheses and semicolons included, so the
text can be scanned and read again.
-/
namespace Lox

/-- There is a program text, and it writes the tokens. -/
def Formatted (tokens : List Token) (source : Except Fault String) : Prop :=
  ∃ text : String, source = .ok text ∧ Lexer.Inscribed tokens text.toList

namespace Grammar
open Lexer
open Lox.Parser (Level levels)

/-- A word with a text of its own. -/
theorem Word.inscribed {kind : Kind} (w : Word kind) (h : w.1.Plain) (text : List Char)
    (hs : kind.spelling? = some (String.ofList text) := by rfl) : Inscribed [w.1] text := by
  have hlexeme : w.1.lexeme = String.ofList text := h.lexical.lexeme_eq (by rw [w.2]; exact hs)
  have htoken := Inscribed.token w.1
  rwa [hlexeme, String.toList_ofList] at htoken

/-- An opening parenthesis with a piece directly behind it. -/
theorem Word.inscribed_glued (w : Word .leftParen) (h : w.1.Plain) {tokens : List Token}
    {text : List Char} (htext : Inscribed tokens text) : Inscribed (w.1 :: tokens) ('(' :: text) := by
  have hlexeme : w.1.lexeme = "(" := h.lexical.lexeme_eq (by rw [w.2]; rfl)
  have hglued := htext.glued (t := w.1) fun behind =>
    parted_of_lexeme (c := '(') (by rw [hlexeme]; rfl) (by decide +kernel) (by decide)
      fun hdouble => absurd hdouble (by decide)
  rw [hlexeme] at hglued
  exact hglued

/-- An operator with its operand directly behind it, which starts with no equals sign. -/
theorem inscribed_unary (w : OneOf [.bang, .minus]) (h : w.1.Plain) {first : Token}
    {tokens : List Token} {text : List Char} (htext : Inscribed (first :: tokens) text)
    (hfirst : first.Lexical) (hkind : first.kind ∈ starters) :
    Inscribed (w.1 :: first :: tokens) (w.1.lexeme.toList ++ text) := by
  have hnone : Kind.equal ∉ starters ∧ Kind.equalEqual ∉ starters := by decide
  obtain ⟨c, more, rfl, hc⟩ := htext.writes.head?_ne_equal hfirst
    (fun heq => hnone.1 (heq ▸ hkind)) (fun heq => hnone.2 (heq ▸ hkind))
  have hhead : ∀ behind : List Char, (c :: more ++ behind).head? ≠ some '=' := fun behind heq =>
    hc (Option.some.inj heq)
  refine htext.glued fun behind => ?_
  rcases List.mem_pair.mp w.2 with hbang | hminus
  · have hlexeme : w.1.lexeme = "!" := h.lexical.lexeme_eq (by rw [hbang]; rfl)
    exact parted_of_lexeme (c := '!') (by rw [hlexeme]; rfl) (by decide +kernel) (by decide)
      fun _ => hhead behind
  · have hlexeme : w.1.lexeme = "-" := h.lexical.lexeme_eq (by rw [hminus]; rfl)
    exact parted_of_lexeme (c := '-') (by rw [hlexeme]; rfl) (by decide +kernel) (by decide)
      fun _ => hhead behind

section Clauses
variable {kind : Kind} {keyword : Word kind} {semicolon : Word .semicolon} {left : Word .leftParen}
  {right : Word .rightParen} {tokens body : List Token} {value text : List Char}

/-- A value with a semicolon behind it. -/
theorem inscribed_ended (hvalue : Inscribed tokens value) (hsemicolon : semicolon.1.Plain) :
    Inscribed (tokens ++ [semicolon.1]) (value ++ [';']) :=
  hvalue.append (semicolon.inscribed hsemicolon [';'])

/-- A keyword with a value and a semicolon behind it. -/
theorem inscribed_keyword_value (hkeyword : keyword.1.Plain) (word : List Char)
    (hvalue : Inscribed tokens value) (hsemicolon : semicolon.1.Plain)
    (hs : kind.spelling? = some (String.ofList word) := by rfl) :
    Inscribed (keyword.1 :: (tokens ++ [semicolon.1])) (word ++ ' ' :: (value ++ [';'])) :=
  (keyword.inscribed hkeyword word hs).append (inscribed_ended hvalue hsemicolon).space

/-- What stands in parentheses, with something else behind it. -/
theorem inscribed_parenthesized (hleft : left.1.Plain) (hvalue : Inscribed tokens value)
    (hright : right.1.Plain) (hbody : Inscribed body text) :
    Inscribed (left.1 :: (tokens ++ right.1 :: body)) ('(' :: (value ++ ')' :: ' ' :: text)) :=
  left.inscribed_glued hleft (hvalue.append ((right.inscribed hright [')']).append hbody.space))

/-- A keyword with a condition in parentheses and a statement behind it. -/
theorem inscribed_keyword_condition (hkeyword : keyword.1.Plain) (word : List Char)
    (hleft : left.1.Plain) (hvalue : Inscribed tokens value) (hright : right.1.Plain)
    (hbody : Inscribed body text) (hs : kind.spelling? = some (String.ofList word) := by rfl) :
    Inscribed (keyword.1 :: left.1 :: (tokens ++ right.1 :: body))
      (word ++ ' ' :: '(' :: (value ++ ')' :: ' ' :: text)) :=
  (keyword.inscribed hkeyword word hs).append
    (inscribed_parenthesized hleft hvalue hright hbody).space

end Clauses

theorem source_node {level : Level} (hlevel : level ∈ levels) (left right : Expr Unit)
    (operator : Token) : (level.node left operator right).source =
      (do return (← left.source) ++ " " ++ operator.lexeme ++ " " ++ (← right.source)) := by
  simp only [levels, List.mem_cons, List.not_mem_nil, or_false] at hlevel
  rcases hlevel with rfl | rfl | rfl | rfl | rfl | rfl <;> simp only [Expr.source]

mutual

theorem Expression.formatted :
    ∀ d : Expression, (∀ t ∈ d.yield, t.Plain) → Formatted d.yield d.tree.source
  | .assignment name equals value, h => by
    simp only [Expression.yield, List.forall_mem_cons] at h
    obtain ⟨-, hequals, hvalue⟩ := h
    obtain ⟨v, hv, hV⟩ := value.formatted hvalue
    refine ⟨name.1.lexeme ++ " = " ++ v, by simp only [Expression.tree, Expr.source, hv]; rfl, ?_⟩
    have htext := (Inscribed.token name.1).append (((equals.inscribed hequals ['=']).append
      hV.space).space)
    simpa [Expression.yield] using htext
  | .operation operation, h => operation.formatted (List.Subset.refl _) h

theorem Operation.formatted : ∀ {tighter : List Level} (d : Operation tighter), tighter ⊆ levels →
    (∀ t ∈ d.yield, t.Plain) → Formatted d.yield d.tree.source
  | _, .unary operand, _, h => operand.formatted h
  | _, .chain first rest, hlevels, h => by
    simp only [Operation.yield, List.forall_mem_append] at h
    have htail := fun other (hother : other ∈ _) => hlevels (List.mem_cons_of_mem _ hother)
    exact rest.formatted hlevels h.2 _ (first.formatted htail h.1)

theorem Operands.formatted : ∀ {level : Level} {tighter : List Level} (d : Operands level tighter),
    level :: tighter ⊆ levels → (∀ t ∈ d.yield, t.Plain) → ∀ {tokens : List Token} (left : Expr Unit),
      Formatted tokens left.source → Formatted (tokens ++ d.yield) (d.tree left).source
  | _, _, .none, _, _, _, left, hleft => by
    rw [Operands.yield, List.append_nil]
    exact hleft
  | level, _, .more operator operand rest, hlevels, h, tokens, left, ⟨l, hl, hL⟩ => by
    simp only [Operands.yield, List.forall_mem_cons, List.forall_mem_append] at h
    obtain ⟨-, hoperand, hrest⟩ := h
    have htail := fun other (hother : other ∈ _) => hlevels (List.mem_cons_of_mem _ hother)
    obtain ⟨r, hr, hR⟩ := operand.formatted htail hoperand
    have hnode : Formatted (tokens ++ operator.1 :: operand.yield)
        (level.node left operator.1 operand.tree).source := by
      refine ⟨l ++ " " ++ operator.1.lexeme ++ " " ++ r, ?_, ?_⟩
      · rw [source_node (hlevels List.mem_cons_self), hl, hr]
        rfl
      · have htext := hL.append ((Inscribed.token operator.1).append hR.space).space
        simpa using htext
    have hall := rest.formatted hlevels hrest _ hnode
    rwa [List.append_assoc] at hall

theorem Unary.formatted :
    ∀ d : Unary, (∀ t ∈ d.yield, t.Plain) → Formatted d.yield d.tree.source
  | .operator operator operand, h => by
    simp only [Unary.yield, List.forall_mem_cons] at h
    obtain ⟨hoperator, hoperand⟩ := h
    obtain ⟨r, hr, hR⟩ := operand.formatted hoperand
    refine ⟨operator.1.lexeme ++ r, by simp only [Unary.tree, Expr.source, hr]; rfl, ?_⟩
    obtain ⟨first, more, hyield, hkind⟩ := operand.starts
    rw [hyield] at hR hoperand
    have htext := inscribed_unary operator hoperator hR (hoperand _ List.mem_cons_self).lexical hkind
    simpa [Unary.yield, hyield] using htext
  | .call callee calls, h => by
    simp only [Unary.yield, List.forall_mem_append] at h
    exact calls.formatted h.2 _ (callee.formatted h.1)

theorem Calls.formatted : ∀ d : Calls, (∀ t ∈ d.yield, t.Plain) →
    ∀ {tokens : List Token} (callee : Expr Unit), Formatted tokens callee.source →
      Formatted (tokens ++ d.yield) (d.tree callee).source
  | .none, _, _, callee, hcallee => by
    rw [Calls.yield, List.append_nil]
    exact hcallee
  | .more left arguments right rest, h, tokens, callee, ⟨c, hc, hC⟩ => by
    simp only [Calls.yield, List.forall_mem_cons, List.forall_mem_append] at h
    obtain ⟨hleft, harguments, hright, hrest⟩ := h
    obtain ⟨texts, htexts, hA⟩ := arguments.formatted harguments
    have hcall : Formatted (tokens ++ left.1 :: (arguments.yield ++ [right.1]))
        (Expr.call callee right.1 arguments.trees).source := by
      refine ⟨c ++ "(" ++ ", ".intercalate texts ++ ")", ?_, ?_⟩
      · simp only [Expr.source, htexts, hc]
        rfl
      · have htext := hC.append (left.inscribed_glued hleft
          (hA.append (right.inscribed hright [')'])))
        simpa using htext
    have hall := rest.formatted hrest _ hcall
    simpa [Calls.yield, Calls.tree] using hall

theorem Arguments.formatted : ∀ d : Arguments, (∀ t ∈ d.yield, t.Plain) →
    ∃ texts : List String, Expr.sources d.trees = .ok texts ∧
      Inscribed d.yield (", ".intercalate texts).toList
  | .none, _ => ⟨[], rfl, by simpa [Arguments.yield] using Inscribed.nil⟩
  | .some first rest, h => by
    simp only [Arguments.yield, List.forall_mem_append] at h
    obtain ⟨text, htext, hT⟩ := first.formatted h.1
    obtain ⟨texts, htexts, hall⟩ := rest.formatted h.2
    exact ⟨text :: texts, by simp only [Arguments.trees, Expr.sources, htext, htexts]; rfl, hall _ hT⟩

theorem MoreArguments.formatted : ∀ d : MoreArguments, (∀ t ∈ d.yield, t.Plain) →
    ∃ texts : List String, Expr.sources d.trees = .ok texts ∧
      ∀ {tokens : List Token} (text : String), Inscribed tokens text.toList →
        Inscribed (tokens ++ d.yield) (", ".intercalate (text :: texts)).toList
  | .none, _ => ⟨[], rfl, fun text h => by simpa [MoreArguments.yield] using h⟩
  | .more comma argument rest, h => by
    simp only [MoreArguments.yield, List.forall_mem_cons, List.forall_mem_append] at h
    obtain ⟨hcomma, hargument, hrest⟩ := h
    obtain ⟨other, hother, hO⟩ := argument.formatted hargument
    obtain ⟨texts, htexts, hall⟩ := rest.formatted hrest
    refine ⟨other :: texts, by simp only [MoreArguments.trees, Expr.sources, hother, htexts]; rfl,
      fun text hT => ?_⟩
    have htext := hT.append ((comma.inscribed hcomma [',']).append (hall _ hO).space)
    rw [String.intercalate_cons_cons]
    simpa [MoreArguments.yield] using htext

theorem Primary.formatted :
    ∀ d : Primary, (∀ t ∈ d.yield, t.Plain) → Formatted d.yield d.tree.source
  | .literal token, h => by
    have hplain : token.1.Plain := h _ List.mem_cons_self
    refine ⟨token.1.lexeme, ?_, Inscribed.token token.1⟩
    rw [hplain.lexeme_eq_source token.2]
    rfl
  | .true token, h => ⟨"true", rfl, token.inscribed (h _ List.mem_cons_self) _⟩
  | .false token, h => ⟨"false", rfl, token.inscribed (h _ List.mem_cons_self) _⟩
  | .nil token, h => ⟨"nil", rfl, token.inscribed (h _ List.mem_cons_self) _⟩
  | .name token, h => ⟨token.1.lexeme, rfl, Inscribed.token token.1⟩
  | .group left inner right, h => by
    simp only [Primary.yield, List.forall_mem_cons, List.forall_mem_append] at h
    obtain ⟨hleft, hinner, hright, -⟩ := h
    obtain ⟨text, htext, hT⟩ := inner.formatted hinner
    refine ⟨"(" ++ text ++ ")", by simp only [Primary.tree, Expr.source, htext]; rfl, ?_⟩
    have hgroup := left.inscribed_glued hleft (hT.append (right.inscribed hright [')']))
    simpa [Primary.yield] using hgroup

end

section Lines

theorem spacing_indentation (depth : Nat) : Spacing (indentation depth).toList := by
  rw [indentation, String.toList_ofList]
  induction depth with
  | zero => exact .nil
  | succ depth ih => exact .blank (by decide) ih

/-- The braces around the lines of a block. -/
theorem inscribed_braced {start : Word .leftBrace} {stop : Word .rightBrace} (hstart : start.1.Plain)
    (hstop : stop.1.Plain) (depth : Nat) {tokens : List Token} {lines : List String}
    (hempty : lines = [] → tokens = [])
    (h : Inscribed tokens ("\n".intercalate lines).toList) :
    Inscribed (start.1 :: (tokens ++ [stop.1])) (braced depth lines).toList := by
  have hopen := start.inscribed hstart ['\x7b']
  have hclose := stop.inscribed hstop ['\x7d']
  cases lines with
  | nil =>
    obtain rfl := hempty rfl
    simpa [braced] using hopen.append hclose
  | cons line lines =>
    have hbehind := (hclose.spaced (spacing_indentation depth)).feed
    have htext := hopen.append (h.append hbehind).feed
    simpa [braced] using htext

end Lines

theorem MoreParameters.inscribed (rest : List (Word .comma × Word .identifier))
    (h : ∀ t ∈ rest.flatMap fun (comma, name) => [comma.1, name.1], t.Plain) {tokens : List Token}
    (text : String) (htext : Inscribed tokens text.toList) :
    Inscribed (tokens ++ rest.flatMap fun (comma, name) => [comma.1, name.1])
      (", ".intercalate (text :: rest.map fun (_, name) => name.1.lexeme)).toList := by
  induction rest generalizing tokens text with
  | nil => simpa using htext
  | cons pair rest ih =>
    obtain ⟨comma, name⟩ := pair
    simp only [List.flatMap_cons, List.forall_mem_append, List.forall_mem_cons] at h
    obtain ⟨⟨hcomma, -, -⟩, hrest⟩ := h
    have hnames := ih hrest name.1.lexeme (Inscribed.token name.1)
    have hall := htext.append ((comma.inscribed hcomma [',']).append hnames.space)
    rw [List.map_cons, String.intercalate_cons_cons]
    simpa using hall

theorem Parameters.inscribed (d : Parameters) (h : ∀ t ∈ d.yield, t.Plain) :
    Inscribed d.yield (", ".intercalate (d.names.map (·.lexeme))).toList := by
  cases d with
  | none => simpa [yield, names] using Inscribed.nil
  | some first rest =>
    simp only [yield, List.forall_mem_cons] at h
    have hall := MoreParameters.inscribed rest h.2 first.1.lexeme (Inscribed.token first.1)
    simpa [yield, names, Function.comp_def] using hall

theorem Statement.tree_ne_endMarker (d : Statement) (h : ∀ t ∈ d.yield, t.Plain) :
    d.tree ≠ .endMarker := by
  cases d with
  | endOfInput token => exact absurd token.2 (h _ List.mem_cons_self).lexical.kind_ne_eof
  | _ => nofun

theorem Statements.ne_endMarker : ∀ d : Statements, (∀ t ∈ d.yield, t.Plain) →
    ∀ s ∈ d.trees, s ≠ .endMarker
  | .none, _ => nofun
  | .more first rest, h => by
    obtain ⟨hfirst, hrest⟩ := List.forall_mem_append.mp h
    exact List.forall_mem_cons.mpr ⟨first.tree_ne_endMarker hfirst, rest.ne_endMarker hrest⟩

mutual

theorem Statement.formatted (depth : Nat) :
    ∀ d : Statement, (∀ t ∈ d.yield, t.Plain) → Formatted d.yield (d.tree.source depth)
  | .endOfInput token, h => absurd token.2 (h _ List.mem_cons_self).lexical.kind_ne_eof
  | .variable keyword name semicolon, h => by
    simp only [Statement.yield, List.forall_mem_cons] at h
    obtain ⟨hkeyword, -, hsemicolon, -⟩ := h
    refine ⟨"var " ++ name.1.lexeme ++ ";", rfl, ?_⟩
    have htext := (keyword.inscribed hkeyword ['v', 'a', 'r']).append
      ((Inscribed.token name.1).append (semicolon.inscribed hsemicolon [';'])).space
    simpa [Statement.yield] using htext
  | .initialized keyword name equals value semicolon, h => by
    simp only [Statement.yield, List.forall_mem_cons, List.forall_mem_append] at h
    obtain ⟨hkeyword, -, hequals, hvalue, hsemicolon, -⟩ := h
    obtain ⟨v, hv, hV⟩ := value.formatted hvalue
    refine ⟨"var " ++ name.1.lexeme ++ " = " ++ v ++ ";",
      by simp only [Statement.tree, Stmt.source, hv]; rfl, ?_⟩
    have hassigned := (equals.inscribed hequals ['=']).append (inscribed_ended hV hsemicolon).space
    have htext := (keyword.inscribed hkeyword ['v', 'a', 'r']).append
      ((Inscribed.token name.1).append hassigned.space).space
    simpa [Statement.yield] using htext
  | .function keyword name left parameters right start body stop, h => by
    simp only [Statement.yield, List.forall_mem_cons, List.forall_mem_append] at h
    obtain ⟨hkeyword, -, hleft, hparameters, hright, hstart, hbody, hstop, -⟩ := h
    obtain ⟨lines, hlines, hempty, -, hL⟩ := body.formatted (depth + 1) hbody
    refine ⟨"fun " ++ name.1.lexeme ++ "(" ++ ", ".intercalate (parameters.names.map (·.lexeme)) ++
      ") " ++ braced depth lines, by simp only [Statement.tree, Stmt.source, hlines]; rfl, ?_⟩
    have hblock := inscribed_braced hstart hstop depth hempty hL
    have hnames := inscribed_parenthesized hleft (parameters.inscribed hparameters) hright hblock
    have htext := (keyword.inscribed hkeyword ['f', 'u', 'n']).append
      ((Inscribed.token name.1).append hnames).space
    simpa [Statement.yield] using htext
  | .block start body stop, h => by
    simp only [Statement.yield, List.forall_mem_cons, List.forall_mem_append] at h
    obtain ⟨hstart, hbody, hstop, -⟩ := h
    obtain ⟨lines, hlines, hempty, -, hL⟩ := body.formatted (depth + 1) hbody
    exact ⟨braced depth lines, by simp only [Statement.tree, Stmt.source, hlines]; rfl,
      inscribed_braced hstart hstop depth hempty hL⟩
  | .conditional keyword left condition right yes, h => by
    simp only [Statement.yield, List.forall_mem_cons, List.forall_mem_append] at h
    obtain ⟨hkeyword, hleft, hcondition, hright, hyes⟩ := h
    obtain ⟨c, hc, hC⟩ := condition.formatted hcondition
    obtain ⟨y, hy, hY⟩ := yes.formatted depth hyes
    refine ⟨"if (" ++ c ++ ") " ++ y, by simp only [Statement.tree, Stmt.source, hc, hy]; rfl, ?_⟩
    have htext := inscribed_keyword_condition hkeyword ['i', 'f'] hleft hC hright hY
    simpa [Statement.yield] using htext
  | .alternative keyword left condition right yes otherwise no, h => by
    simp only [Statement.yield, List.forall_mem_cons, List.forall_mem_append] at h
    obtain ⟨hkeyword, hleft, hcondition, hright, hyes, hotherwise, hno⟩ := h
    obtain ⟨c, hc, hC⟩ := condition.formatted hcondition
    obtain ⟨y, hy, hY⟩ := yes.formatted depth hyes
    obtain ⟨n, hn, hN⟩ := no.formatted depth hno
    refine ⟨"if (" ++ c ++ ") " ++ y ++ " else " ++ n,
      by simp only [Statement.tree, Stmt.source, hc, hy, hn]; rfl, ?_⟩
    have hbranches := hY.append
      ((otherwise.inscribed hotherwise ['e', 'l', 's', 'e']).append hN.space).space
    have htext := inscribed_keyword_condition hkeyword ['i', 'f'] hleft hC hright hbranches
    simpa [Statement.yield] using htext
  | .loop keyword left condition right body, h => by
    simp only [Statement.yield, List.forall_mem_cons, List.forall_mem_append] at h
    obtain ⟨hkeyword, hleft, hcondition, hright, hbody⟩ := h
    obtain ⟨c, hc, hC⟩ := condition.formatted hcondition
    obtain ⟨b, hb, hB⟩ := body.formatted depth hbody
    refine ⟨"while (" ++ c ++ ") " ++ b, by simp only [Statement.tree, Stmt.source, hc, hb]; rfl, ?_⟩
    have htext := inscribed_keyword_condition hkeyword ['w', 'h', 'i', 'l', 'e'] hleft hC hright hB
    simpa [Statement.yield] using htext
  | .print keyword value semicolon, h => by
    simp only [Statement.yield, List.forall_mem_cons, List.forall_mem_append] at h
    obtain ⟨hkeyword, hvalue, hsemicolon, -⟩ := h
    obtain ⟨v, hv, hV⟩ := value.formatted hvalue
    refine ⟨"print " ++ v ++ ";", by simp only [Statement.tree, Stmt.source, hv]; rfl, ?_⟩
    have htext := inscribed_keyword_value hkeyword ['p', 'r', 'i', 'n', 't'] hV hsemicolon
    simpa [Statement.yield] using htext
  | .assert keyword value semicolon, h => by
    simp only [Statement.yield, List.forall_mem_cons, List.forall_mem_append] at h
    obtain ⟨hkeyword, hvalue, hsemicolon, -⟩ := h
    obtain ⟨v, hv, hV⟩ := value.formatted hvalue
    refine ⟨"assert " ++ v ++ ";", by simp only [Statement.tree, Stmt.source, hv]; rfl, ?_⟩
    have htext := inscribed_keyword_value hkeyword ['a', 's', 's', 'e', 'r', 't'] hV hsemicolon
    simpa [Statement.yield] using htext
  | .return keyword semicolon, h => by
    simp only [Statement.yield, List.forall_mem_cons] at h
    obtain ⟨hkeyword, hsemicolon, -⟩ := h
    refine ⟨"return;", rfl, ?_⟩
    have htext := (keyword.inscribed hkeyword ['r', 'e', 't', 'u', 'r', 'n']).append
      (semicolon.inscribed hsemicolon [';'])
    simpa [Statement.yield] using htext
  | .returning keyword value semicolon, h => by
    simp only [Statement.yield, List.forall_mem_cons, List.forall_mem_append] at h
    obtain ⟨hkeyword, hvalue, hsemicolon, -⟩ := h
    obtain ⟨v, hv, hV⟩ := value.formatted hvalue
    refine ⟨"return " ++ v ++ ";", by simp only [Statement.tree, Stmt.source, hv]; rfl, ?_⟩
    have htext := inscribed_keyword_value hkeyword ['r', 'e', 't', 'u', 'r', 'n'] hV hsemicolon
    simpa [Statement.yield] using htext
  | .expression value semicolon, h => by
    simp only [Statement.yield, List.forall_mem_cons, List.forall_mem_append] at h
    obtain ⟨hvalue, hsemicolon, -⟩ := h
    obtain ⟨v, hv, hV⟩ := value.formatted hvalue
    refine ⟨v ++ ";", by simp only [Statement.tree, Stmt.source, hv]; rfl, ?_⟩
    have htext := inscribed_ended hV hsemicolon
    simpa [Statement.yield] using htext

theorem Statements.formatted (depth : Nat) : ∀ d : Statements, (∀ t ∈ d.yield, t.Plain) →
    ∃ lines : List String, Stmt.lines depth d.trees = .ok lines ∧ (lines = [] → d.yield = []) ∧
      (∀ line ∈ lines, line ≠ "") ∧ Inscribed d.yield ("\n".intercalate lines).toList
  | .none, _ => ⟨[], rfl, fun _ => rfl, nofun, by simpa [Statements.yield] using Inscribed.nil⟩
  | .more first rest, h => by
    simp only [Statements.yield, List.forall_mem_append] at h
    obtain ⟨text, htext, hT⟩ := first.formatted depth h.1
    obtain ⟨lines, hlines, hempty, hne, hL⟩ := rest.formatted depth h.2
    have hfirst : text ≠ "" := by
      rintro rfl
      obtain ⟨t, more, hyield, -⟩ := first.starts
      rw [hyield] at hT h
      exact hT.writes.ne_nil (h.1 t List.mem_cons_self).lexical String.toList_empty
    refine ⟨(indentation depth ++ text) :: lines, ?_, nofun,
      List.forall_mem_cons.mpr ⟨by simp [hfirst], hne⟩, ?_⟩
    · rw [Statements.trees, Stmt.lines_cons (first.tree_ne_endMarker h.1), htext, hlines]
      rfl
    · have hline := hT.spaced (spacing_indentation depth)
      cases lines with
      | nil =>
        rw [Statements.yield, hempty rfl, List.append_nil, String.intercalate_singleton]
        simpa using hline
      | cons line lines =>
        rw [Statements.yield, String.intercalate_cons_cons]
        simpa using hline.append hL.feed

end

end Grammar

end Lox
