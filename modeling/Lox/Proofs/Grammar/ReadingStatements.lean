import Lox.Proofs.Grammar.Reading

/-!
# What the parser reads as statements has a derivation

A statement that ends with an open conditional is not followed by an `else`, since the conditional
would have taken it. So in the derivation of what has been read every `else` belongs to the nearest
conditional that is still open.
-/
namespace Lox.Grammar
open Outcome Lox.Parser

/-- No `else` follows on the stream when a conditional at the end of the statement is open. -/
def Statement.Closed (d : Statement) (s : TokenStream) : Prop :=
  d.isOpen = true → Next (fun kind => kind ≠ .kwElse) s

/-- A reader of statements takes the tokens of a derivation and gives its tree. -/
def SoundStatement (p : Parser (Stmt Unit)) : Prop :=
  ∀ {s tree s'}, p s = .ok tree s' →
    ∃ d : Statement, Takes s d.yield s' ∧ d.tree = tree ∧ d.Near ∧ d.Closed s'

section Statements
variable {s s' : TokenStream} {tree : Stmt Unit} {inner : Parser (Expr Unit)}
  {statement : Parser (Stmt Unit)}

/-- Statements up to the end of their block; they come last first. -/
theorem statements_sound (hstatement : SoundStatement statement) {fuel : Nat}
    {trees all : List (Stmt Unit)}
    (h : repeatUpTo (fun statements => do
      if ← check [.rightBrace, .eof] then return none
      else return some ((← statement) :: statements)) fuel trees s = .ok all s') :
    ∃ body : Statements,
      Takes s body.yield s' ∧ all.reverse = trees.reverse ++ body.trees ∧ body.Near := by
  induction fuel generalizing trees s with
  | zero =>
    cases h
    exact ⟨.none, .nil _, by simp [Statements.trees], trivial⟩
  | succ fuel ih =>
    obtain ⟨next, t, hstep, hrest⟩ := bind_eq_ok.mp h
    obtain ⟨b, u, hcheck, hbody⟩ := bind_eq_ok.mp hstep
    obtain ⟨token, hhead, rfl, rfl⟩ := check_eq_ok.mp hcheck
    split at hbody
    · cases hbody
      cases hrest
      exact ⟨.none, .nil _, by simp [Statements.trees], trivial⟩
    · obtain ⟨tree, v, htree, hreturn⟩ := bind_eq_ok.mp hbody
      cases hreturn
      obtain ⟨first, hfirst, rfl, hnear, -⟩ := hstatement htree
      obtain ⟨rest, htakes, htrees, hnears⟩ := ih hrest
      exact ⟨.more first rest, hfirst.append htakes, by simp [Statements.trees, htrees],
        hnear, hnears⟩

theorem block_sound (hstatement : SoundStatement statement) {trees : List (Stmt Unit)}
    (h : block statement s = .ok trees s') :
    ∃ (body : Statements) (stop : Word .rightBrace),
      Takes s (body.yield ++ [stop.1]) s' ∧ body.trees = trees ∧ body.Near := by
  obtain ⟨reversed, t, hreversed, hrest⟩ := bind_eq_ok.mp h
  obtain ⟨stop, u, hstop, hreturn⟩ := bind_eq_ok.mp hrest
  cases hreturn
  obtain ⟨hhead, hkind, rfl⟩ := expect_eq_ok.mp hstop
  obtain ⟨body, hbody, htrees, hnear⟩ := statements_sound hstatement hreversed
  exact ⟨body, ⟨stop, hkind⟩, hbody.concat hhead, by simpa using htrees.symm, hnear⟩

theorem parameters_sound {names : List Token} (h : list (expect .parameterName) s = .ok names s') :
    ∃ parameters : Parameters, Takes s parameters.yield s' ∧ parameters.names = names := by
  have hitem : Sound (expect .parameterName) (fun word : Word .identifier => [word.1])
      (fun word => word.1) := by
    intro s t s' h
    obtain ⟨hhead, hkind, rfl⟩ := expect_eq_ok.mp h
    exact ⟨⟨t, hkind⟩, .single hhead, rfl⟩
  obtain ⟨b, u, hcheck, hbody⟩ := bind_eq_ok.mp h
  obtain ⟨token, hhead, rfl, rfl⟩ := check_eq_ok.mp hcheck
  split at hbody
  · cases hbody
    exact ⟨.none, .nil _, rfl⟩
  · obtain ⟨first, rest, htakes, rfl⟩ := separated_sound hitem hbody
    exact ⟨.some first rest, htakes, rfl⟩

theorem ended_sound (hinner : Sound inner Expression.yield Expression.tree) {e : Expr Unit}
    (h : ended inner s = .ok e s') :
    ∃ (d : Expression) (semicolon : Word .semicolon),
      Takes s (d.yield ++ [semicolon.1]) s' ∧ d.tree = e := by
  obtain ⟨e, t, he, hrest⟩ := bind_eq_ok.mp h
  obtain ⟨semicolon, u, hsemicolon, hreturn⟩ := bind_eq_ok.mp hrest
  cases hreturn
  obtain ⟨d, hd, rfl⟩ := hinner he
  obtain ⟨hhead, hkind, rfl⟩ := expect_eq_ok.mp hsemicolon
  exact ⟨d, ⟨semicolon, hkind⟩, hd.concat hhead, rfl⟩

/-- The condition of a conditional or a loop, with the parentheses around it. -/
theorem condition_sound (hinner : Sound inner Expression.yield Expression.tree)
    {start stop : Expectation} (hstart : start.kind = .leftParen) (hstop : stop.kind = .rightParen)
    {left right : Token} {e : Expr Unit} {t u : TokenStream} (hleft : expect start s = .ok left t)
    (he : inner t = .ok e u) (hright : expect stop u = .ok right s') :
    ∃ (left : Word .leftParen) (d : Expression) (right : Word .rightParen),
      Takes s (left.1 :: (d.yield ++ [right.1])) s' ∧ d.tree = e := by
  obtain ⟨hhead, hkind, rfl⟩ := expect_eq_ok.mp hleft
  obtain ⟨hhead', hkind', rfl⟩ := expect_eq_ok.mp hright
  obtain ⟨d, hd, rfl⟩ := hinner he
  exact ⟨⟨left, hkind.trans hstart⟩, d, ⟨right, hkind'.trans hstop⟩,
    .cons hhead (hd.concat hhead'), rfl⟩

/-- A statement without an open conditional may be followed by anything. -/
theorem Statement.closed_of_isOpen_eq_false {d : Statement} (h : d.isOpen = false) :
    d.Closed s := by
  intro hopen
  rw [h] at hopen
  cases hopen

theorem variableDeclaration_sound (hinner : Sound inner Expression.yield Expression.tree)
    {keyword : Token} (hhead : s.head = .ok keyword) (hkind : keyword.kind = .kwVar)
    (h : variableDeclaration inner s = .ok tree s') :
    ∃ d : Statement, Takes s d.yield s' ∧ d.tree = tree ∧ d.Near ∧ d.Closed s' := by
  obtain ⟨word, t, hword, h⟩ := bind_eq_ok.mp h
  obtain ⟨name, u, hname, h⟩ := bind_eq_ok.mp h
  obtain ⟨b, v, hcheck, h⟩ := bind_eq_ok.mp h
  obtain ⟨-, rfl⟩ := pop_eq_ok.mp hword
  obtain ⟨hnameHead, hnameKind, rfl⟩ := expect_eq_ok.mp hname
  obtain ⟨token, hequal, hb, rfl⟩ := check_eq_ok.mp hcheck
  cases b with
  | true =>
    obtain ⟨equals, w, hequals, h⟩ := bind_eq_ok.mp h
    obtain ⟨value, x, hvalue, h⟩ := bind_eq_ok.mp h
    obtain ⟨semicolon, y, hsemicolon, hreturn⟩ := bind_eq_ok.mp h
    obtain ⟨-, rfl⟩ := pop_eq_ok.mp hequals
    obtain ⟨e, he, rfl⟩ := map_eq_ok.mp hvalue
    obtain ⟨hsemicolonHead, hsemicolonKind, rfl⟩ := expect_eq_ok.mp hsemicolon
    cases hreturn
    obtain ⟨d, hd, rfl⟩ := hinner he
    have hequal' : token.kind = .equal := by simpa using hb
    exact ⟨.initialized ⟨keyword, hkind⟩ ⟨name, hnameKind⟩ ⟨token, hequal'⟩ d
        ⟨semicolon, hsemicolonKind⟩,
      .cons hhead (.cons hnameHead (.cons hequal (hd.concat hsemicolonHead))), rfl, trivial,
      Statement.closed_of_isOpen_eq_false rfl⟩
  | false =>
    obtain ⟨value, x, hvalue, h⟩ := bind_eq_ok.mp h
    obtain ⟨semicolon, y, hsemicolon, hreturn⟩ := bind_eq_ok.mp h
    cases hvalue
    obtain ⟨hsemicolonHead, hsemicolonKind, rfl⟩ := expect_eq_ok.mp hsemicolon
    cases hreturn
    exact ⟨.variable ⟨keyword, hkind⟩ ⟨name, hnameKind⟩ ⟨semicolon, hsemicolonKind⟩,
      .cons hhead (.cons hnameHead (.single hsemicolonHead)), rfl, trivial,
      Statement.closed_of_isOpen_eq_false rfl⟩

theorem functionDeclaration_sound (hstatement : SoundStatement statement) {keyword : Token}
    (hhead : s.head = .ok keyword) (hkind : keyword.kind = .kwFun)
    (h : functionDeclaration statement s = .ok tree s') :
    ∃ d : Statement, Takes s d.yield s' ∧ d.tree = tree ∧ d.Near ∧ d.Closed s' := by
  obtain ⟨word, t, hword, h⟩ := bind_eq_ok.mp h
  obtain ⟨name, u, hname, h⟩ := bind_eq_ok.mp h
  obtain ⟨left, v, hleft, h⟩ := bind_eq_ok.mp h
  obtain ⟨names, w, hnames, h⟩ := bind_eq_ok.mp h
  obtain ⟨right, x, hright, h⟩ := bind_eq_ok.mp h
  obtain ⟨start, y, hstart, h⟩ := bind_eq_ok.mp h
  obtain ⟨trees, z, htrees, hreturn⟩ := bind_eq_ok.mp h
  cases hreturn
  obtain ⟨-, rfl⟩ := pop_eq_ok.mp hword
  obtain ⟨hnameHead, hnameKind, rfl⟩ := expect_eq_ok.mp hname
  obtain ⟨hleftHead, hleftKind, rfl⟩ := expect_eq_ok.mp hleft
  obtain ⟨parameters, hparameters, rfl⟩ := parameters_sound hnames
  obtain ⟨hrightHead, hrightKind, rfl⟩ := expect_eq_ok.mp hright
  obtain ⟨hstartHead, hstartKind, rfl⟩ := expect_eq_ok.mp hstart
  obtain ⟨body, stop, hbody, rfl, hnear⟩ := block_sound hstatement htrees
  exact ⟨.function ⟨keyword, hkind⟩ ⟨name, hnameKind⟩ ⟨left, hleftKind⟩ parameters ⟨right, hrightKind⟩
      ⟨start, hstartKind⟩ body stop,
    .cons hhead (.cons hnameHead (.cons hleftHead (hparameters.append (.cons hrightHead
      (.cons hstartHead hbody))))), rfl, hnear, Statement.closed_of_isOpen_eq_false rfl⟩

theorem conditional_sound (hinner : Sound inner Expression.yield Expression.tree)
    (hstatement : SoundStatement statement) {keyword : Token} (hhead : s.head = .ok keyword)
    (hkind : keyword.kind = .kwIf) (h : conditional inner statement s = .ok tree s') :
    ∃ d : Statement, Takes s d.yield s' ∧ d.tree = tree ∧ d.Near ∧ d.Closed s' := by
  obtain ⟨word, t, hword, h⟩ := bind_eq_ok.mp h
  obtain ⟨left, u, hleft, h⟩ := bind_eq_ok.mp h
  obtain ⟨e, v, he, h⟩ := bind_eq_ok.mp h
  obtain ⟨right, w, hright, h⟩ := bind_eq_ok.mp h
  obtain ⟨treeYes, x, hyes, h⟩ := bind_eq_ok.mp h
  obtain ⟨b, y, hcheck, h⟩ := bind_eq_ok.mp h
  obtain ⟨-, rfl⟩ := pop_eq_ok.mp hword
  obtain ⟨left, condition, right, hcondition, rfl⟩ := condition_sound hinner rfl rfl hleft he hright
  obtain ⟨yes, hyesTakes, rfl, hnear, hclosed⟩ := hstatement hyes
  obtain ⟨token, hnext, hb, rfl⟩ := check_eq_ok.mp hcheck
  have hfront : Takes s (keyword :: (left.1 :: (condition.yield ++ [right.1]) ++ yes.yield)) y :=
    .cons hhead (hcondition.append hyesTakes)
  cases b with
  | true =>
    obtain ⟨otherwise, z, hotherwise, h⟩ := bind_eq_ok.mp h
    obtain ⟨treeNo, z', hno, hreturn⟩ := bind_eq_ok.mp h
    cases hreturn
    obtain ⟨-, rfl⟩ := pop_eq_ok.mp hotherwise
    obtain ⟨no, hnoTakes, rfl, hnear', hclosed'⟩ := hstatement hno
    have helse : token.kind = .kwElse := by simpa using hb
    have hisOpen : yes.isOpen = false := by
      refine Bool.eq_false_iff.mpr fun hisOpen => ?_
      obtain ⟨other, hother, hkind'⟩ := hclosed hisOpen
      rw [hnext] at hother
      cases hother
      exact hkind' helse
    refine ⟨.alternative ⟨keyword, hkind⟩ left condition right yes ⟨token, helse⟩ no, ?_, rfl,
      ⟨hnear, hisOpen, hnear'⟩, hclosed'⟩
    have htakes := hfront.append (.cons hnext hnoTakes)
    simpa [Statement.yield] using htakes
  | false =>
    cases h
    refine ⟨.conditional ⟨keyword, hkind⟩ left condition right yes, ?_, rfl, hnear, ?_⟩
    · simpa [Statement.yield] using hfront
    · exact fun _ => ⟨token, hnext, by simpa using hb⟩

theorem loop_sound (hinner : Sound inner Expression.yield Expression.tree)
    (hstatement : SoundStatement statement) {keyword : Token} (hhead : s.head = .ok keyword)
    (hkind : keyword.kind = .kwWhile) (h : loop inner statement s = .ok tree s') :
    ∃ d : Statement, Takes s d.yield s' ∧ d.tree = tree ∧ d.Near ∧ d.Closed s' := by
  obtain ⟨word, t, hword, h⟩ := bind_eq_ok.mp h
  obtain ⟨left, u, hleft, h⟩ := bind_eq_ok.mp h
  obtain ⟨e, v, he, h⟩ := bind_eq_ok.mp h
  obtain ⟨right, w, hright, h⟩ := bind_eq_ok.mp h
  obtain ⟨treeBody, x, hbody, hreturn⟩ := bind_eq_ok.mp h
  cases hreturn
  obtain ⟨-, rfl⟩ := pop_eq_ok.mp hword
  obtain ⟨left, condition, right, hcondition, rfl⟩ := condition_sound hinner rfl rfl hleft he hright
  obtain ⟨body, hbodyTakes, rfl, hnear, hclosed⟩ := hstatement hbody
  refine ⟨.loop ⟨keyword, hkind⟩ left condition right body, ?_, rfl, hnear, hclosed⟩
  have htakes : Takes s (keyword :: (left.1 :: (condition.yield ++ [right.1]) ++ body.yield)) s' :=
    .cons hhead (hcondition.append hbodyTakes)
  simpa [Statement.yield] using htakes

theorem returning_sound (hinner : Sound inner Expression.yield Expression.tree)
    {keyword : Token} (hhead : s.head = .ok keyword) (hkind : keyword.kind = .kwReturn)
    (h : returning inner s = .ok tree s') :
    ∃ d : Statement, Takes s d.yield s' ∧ d.tree = tree ∧ d.Near ∧ d.Closed s' := by
  obtain ⟨word, t, hword, h⟩ := bind_eq_ok.mp h
  obtain ⟨b, u, hcheck, h⟩ := bind_eq_ok.mp h
  obtain ⟨hwordHead, rfl⟩ := pop_eq_ok.mp hword
  rw [hhead] at hwordHead
  cases hwordHead
  obtain ⟨token, hnext, hb, rfl⟩ := check_eq_ok.mp hcheck
  cases b with
  | true =>
    obtain ⟨value, v, hvalue, h⟩ := bind_eq_ok.mp h
    obtain ⟨semicolon, w, hsemicolon, hreturn⟩ := bind_eq_ok.mp h
    cases hvalue
    obtain ⟨hsemicolonHead, hsemicolonKind, rfl⟩ := expect_eq_ok.mp hsemicolon
    cases hreturn
    exact ⟨.return ⟨keyword, hkind⟩ ⟨semicolon, hsemicolonKind⟩,
      .cons hhead (.single hsemicolonHead), rfl, trivial, Statement.closed_of_isOpen_eq_false rfl⟩
  | false =>
    obtain ⟨value, v, hvalue, h⟩ := bind_eq_ok.mp h
    obtain ⟨semicolon, w, hsemicolon, hreturn⟩ := bind_eq_ok.mp h
    obtain ⟨e, he, rfl⟩ := map_eq_ok.mp hvalue
    obtain ⟨hsemicolonHead, hsemicolonKind, rfl⟩ := expect_eq_ok.mp hsemicolon
    cases hreturn
    obtain ⟨d, hd, rfl⟩ := hinner he
    exact ⟨.returning ⟨keyword, hkind⟩ d ⟨semicolon, hsemicolonKind⟩,
      .cons hhead (hd.concat hsemicolonHead), rfl, trivial, Statement.closed_of_isOpen_eq_false rfl⟩

/-- Statements of any depth. -/
theorem statement_sound (depth : Nat) : SoundStatement (Parser.statement depth) := by
  induction depth with
  | zero => exact fun h => nomatch h
  | succ depth ih =>
    intro s tree s' h
    have hinner : Sound (Parser.expression depth) Expression.yield Expression.tree :=
      expression_sound depth
    unfold Parser.statement at h
    obtain ⟨token, t, hpeek, hbody⟩ := bind_eq_ok.mp h
    obtain ⟨hhead, rfl⟩ := peek_eq_ok.mp hpeek
    -- A keyword is taken from where it has been seen.
    have hpop : ∀ {other v}, pop t = .ok other v → other = token ∧ v = t.tail := by
      intro other v hpop
      obtain ⟨hhead', rfl⟩ := pop_eq_ok.mp hpop
      rw [hhead] at hhead'
      cases hhead'
      exact ⟨rfl, rfl⟩
    generalize hkind : token.kind = kind at hbody
    cases kind with
    | eof =>
      obtain ⟨other, v, hother, hreturn⟩ := bind_eq_ok.mp hbody
      obtain ⟨rfl, rfl⟩ := hpop hother
      cases hreturn
      exact ⟨.endOfInput ⟨other, hkind⟩, .single hhead, rfl, trivial,
        Statement.closed_of_isOpen_eq_false rfl⟩
    | kwVar => exact variableDeclaration_sound hinner hhead hkind hbody
    | kwFun => exact functionDeclaration_sound ih hhead hkind hbody
    | kwIf => exact conditional_sound hinner ih hhead hkind hbody
    | kwWhile => exact loop_sound hinner ih hhead hkind hbody
    | kwReturn => exact returning_sound hinner hhead hkind hbody
    | leftBrace =>
      obtain ⟨other, v, hother, hbody⟩ := bind_eq_ok.mp hbody
      obtain ⟨trees, w, htrees, hreturn⟩ := bind_eq_ok.mp hbody
      obtain ⟨rfl, rfl⟩ := hpop hother
      cases hreturn
      obtain ⟨body, stop, htakes, rfl, hnear⟩ := block_sound ih htrees
      exact ⟨.block ⟨other, hkind⟩ body stop, .cons hhead htakes, rfl, hnear,
        Statement.closed_of_isOpen_eq_false rfl⟩
    | kwPrint =>
      obtain ⟨other, v, hother, hbody⟩ := bind_eq_ok.mp hbody
      obtain ⟨e, w, he, hreturn⟩ := bind_eq_ok.mp hbody
      obtain ⟨rfl, rfl⟩ := hpop hother
      cases hreturn
      obtain ⟨d, semicolon, hd, rfl⟩ := ended_sound hinner he
      exact ⟨.print ⟨other, hkind⟩ d semicolon, .cons hhead hd, rfl, trivial,
        Statement.closed_of_isOpen_eq_false rfl⟩
    | kwAssert =>
      obtain ⟨other, v, hother, hbody⟩ := bind_eq_ok.mp hbody
      obtain ⟨e, w, he, hreturn⟩ := bind_eq_ok.mp hbody
      obtain ⟨rfl, rfl⟩ := hpop hother
      cases hreturn
      obtain ⟨d, semicolon, hd, rfl⟩ := ended_sound hinner he
      exact ⟨.assert ⟨other, hkind⟩ d semicolon, .cons hhead hd, rfl, trivial,
        Statement.closed_of_isOpen_eq_false rfl⟩
    | _ =>
      obtain ⟨e, w, he, hreturn⟩ := bind_eq_ok.mp hbody
      cases hreturn
      obtain ⟨d, semicolon, hd, rfl⟩ := ended_sound hinner he
      exact ⟨.expression d semicolon, hd, rfl, trivial,
        Statement.closed_of_isOpen_eq_false rfl⟩

end Statements

end Lox.Grammar
