import Lox.Proofs.Grammar.Accepting
import Lox.Proofs.Grammar.ReadingStatements

/-!
# What has a derivation as statements is read

The derivations are those in which every `else` belongs to the nearest open conditional. Blocks stop
at the end of the input, which is why the stream must not deliver its end token early.
-/
namespace Lox

/-- The end token is not among the tokens still to come. -/
def TokenStream.Genuine (s : TokenStream) : Prop :=
  ∀ t, Except.ok t ∈ s.pending → t.kind ≠ .eof

theorem TokenStream.Genuine.tail {s : TokenStream} (h : s.Genuine) : s.tail.Genuine :=
  fun t ht => h t (List.mem_of_mem_tail ht)

/-- A stream that delivers its end token has nothing else to deliver. -/
theorem TokenStream.Genuine.pending_eq_nil {s : TokenStream} (h : s.Genuine) {t : Token}
    (hhead : s.head = .ok t) (hkind : t.kind = .eof) : s.pending = [] := by
  obtain ⟨pending, lastLine⟩ := s
  cases pending with
  | nil => rfl
  | cons outcome pending =>
    cases hhead
    exact absurd hkind (h t List.mem_cons_self)

/-- A stream that has nothing to deliver stays where it is. -/
theorem TokenStream.tail_eq_self {s : TokenStream} (h : s.pending = []) : s.tail = s := by
  obtain ⟨pending, lastLine⟩ := s
  cases h
  rfl

theorem TokenStream.head_of_pending_eq_nil {s : TokenStream} (h : s.pending = []) :
    s.head = .ok s.endToken := by
  rw [head, h]
  rfl

namespace Grammar
open Outcome Lox.Parser
variable {s s' : TokenStream}

theorem Takes.genuine {ts : List Token} (h : Takes s ts s') (hs : s.Genuine) : s'.Genuine := by
  induction h with
  | nil s => exact hs
  | cons hhead rest ih => exact ih hs.tail

/-- The end of the input comes after everything else. -/
theorem Takes.next_ne_eof {ts : List Token} (h : Takes s ts s') (hs : s.Genuine)
    (hnext : Next (fun kind => kind ≠ .eof) s') : Next (fun kind => kind ≠ .eof) s := by
  induction h with
  | nil s => exact hnext
  | @cons s _ t _ hhead rest ih =>
    refine ⟨t, hhead, fun hkind => ?_⟩
    obtain ⟨other, hother, hne⟩ := ih hs.tail hnext
    rw [TokenStream.tail_eq_self (hs.pending_eq_nil hhead hkind), hhead] at hother
    cases hother
    exact hne hkind

/-- A reader reads the derivations of statements that fit. -/
def Statement.Complete (depth : Nat) (p : Parser (Stmt Unit)) : Prop :=
  ∀ ⦃d : Statement⦄ ⦃s s' : TokenStream⦄, s.Genuine → Takes s d.yield s' → d.Near →
    d.Closed s' → Reads (d.Fits depth) p s d.tree s'

section Parts
variable {depth : Nat} {inner : Parser (Expr Unit)} {statement : Parser (Stmt Unit)}

/-- What a statement is followed by in a block is no `else`. -/
theorem Statements.closed (first : Statement) {rest : Statements} (h : Takes s rest.yield s')
    (hnext : Next (fun kind => kind = .rightBrace) s') : first.Closed s := by
  intro _
  cases rest with
  | none =>
    cases h.eq_of_nil
    exact hnext.mono fun kind hkind => by simp [hkind]
  | more next rest =>
    have helse : ∀ kind ∈ statementStarters, kind ≠ .kwElse := by
      simp [statementStarters, starters, primaryStarters]
    exact (h.next (next.starts.append _)).mono helse

/-- Statements up to the end of their block; they come last first. -/
theorem statements_complete (hstatement : Statement.Complete depth statement) {fuel : Nat}
    {trees : List (Stmt Unit)} (body : Statements) (hfuel : s.remaining ≤ fuel) (hs : s.Genuine)
    (h : Takes s body.yield s') (hnear : body.Near)
    (hnext : Next (fun kind => kind = .rightBrace) s') :
    Reads (body.Fits depth) (repeatUpTo (fun statements => do
      if ← check [.rightBrace, .eof] then return none
      else return some ((← statement) :: statements)) fuel trees) s (body.trees.reverse ++ trees)
      s' := by
  induction fuel generalizing s trees body with
  | zero =>
    cases body with
    | none =>
      cases h.eq_of_nil
      exact .of_ok rfl
    | more first rest =>
      obtain ⟨t, hhead, hkind⟩ := h.next_ne_eof hs (hnext.mono fun kind hkind => by simp [hkind])
      have := remaining_tail_lt hhead hkind
      omega
  | succ fuel ih =>
    cases body with
    | none =>
      cases h.eq_of_nil
      obtain ⟨t, hhead, hkind⟩ := hnext
      have hcheck : check [.rightBrace, .eof] s' = .ok true s' :=
        check_eq_ok.mpr ⟨t, hhead, by simp [hkind], rfl⟩
      exact .rounds_end (bind_of_ok hcheck _) _
    | more first rest =>
      have hne := h.next_ne_eof hs (hnext.mono fun kind hkind => by simp [hkind])
      obtain ⟨t, hhead, hkind⟩ := h.next (first.starts.append _)
      obtain ⟨u, hfirst, hrest⟩ := Takes.of_append h
      have hmem : t.kind ∉ [Kind.rightBrace, .eof] := by
        obtain ⟨other, hother, hother'⟩ := hne
        rw [hhead] at hother
        cases hother
        have hbrace : ∀ kind ∈ statementStarters, kind ≠ .rightBrace := by
          simp [statementStarters, starters, primaryStarters]
        simp [hother', hbrace t.kind hkind]
      have hlt : u.remaining < s.remaining := by
        obtain ⟨token, ts, hyield, -⟩ := first.starts
        rw [hyield] at hfirst
        obtain ⟨hhead', htail⟩ := hfirst.uncons
        rw [hhead] at hhead'
        cases hhead'
        have hle := htail.remaining_le
        have hlt := remaining_tail_lt hhead (fun hkind => hmem (by simp [hkind]))
        omega
      rw [Statements.trees, List.reverse_cons, List.append_assoc]
      refine .round (t := u) ?_ (ih rest (by omega) (hfirst.genuine hs) hrest hnear.2)
      refine .check_of_not_mem ⟨t, hhead, hmem⟩ ?_
      exact .ended (hstatement hs hfirst hnear.1 (Statements.closed first hrest hnext)) rfl

theorem block_complete (hstatement : Statement.Complete depth statement) {body : Statements}
    {stop : Word .rightBrace} (hs : s.Genuine) (h : Takes s (body.yield ++ [stop.1]) s')
    (hnear : body.Near) : Reads (body.Fits depth) (block statement) s body.trees s' := by
  obtain ⟨t, hbody, hstop⟩ := h.of_append
  have hstatements : Reads (body.Fits depth) (repeatWhile _ []) s _ t :=
    statements_complete hstatement body (Nat.le_refl _) hs hbody hnear (hstop.next_word rfl)
  have hexpect : expect .blockEnd t = .ok stop.1 t.tail := expect_of_takes hstop
  refine .ended hstatements ?_
  rw [bind_of_ok hexpect, hstop.uncons.2.eq_of_nil]
  simp

theorem parameters_complete {parameters : Parameters} (h : Takes s parameters.yield s')
    (hnext : Next (fun kind => kind = .rightParen) s') :
    Reads True (list (expect .parameterName)) s parameters.names s' := by
  have hitem : Complete (expect .parameterName) (fun _ => True) (fun _ => True)
      (fun word : Word .identifier => [word.1]) (fun word => word.1) := by
    intro word s s' h _
    have hexpect : expect .parameterName s = .ok word.1 s.tail := expect_of_takes h
    rw [← h.uncons.2.eq_of_nil]
    exact .of_ok hexpect
  cases parameters with
  | none =>
    cases h.eq_of_nil
    exact .check_of_mem (hnext.mono fun _ hkind => by simp [hkind]) (.of_ok rfl)
  | some first rest =>
    have hcomma : Next (fun kind => kind ≠ .comma ∧ True) s' :=
      hnext.mono fun _ hkind => by simp [hkind]
    refine .check_of_not_mem (Takes.next_word h (by simp)) ?_
    exact (separated_complete hitem trivial h hcomma).congr (by simp)

theorem ended_complete (hinner : Expression.Complete depth inner) {d : Expression}
    {semicolon : Word .semicolon} (h : Takes s (d.yield ++ [semicolon.1]) s') :
    Reads (d.Fits depth) (ended inner) s d.tree s' := by
  obtain ⟨t, hd, hsemicolon⟩ := h.of_append
  have hexpect : expect .expressionEnd t = .ok semicolon.1 t.tail := expect_of_takes hsemicolon
  refine .ended (hinner hd (hsemicolon.next_word ends_semicolon)) ?_
  rw [bind_of_ok hexpect, hsemicolon.uncons.2.eq_of_nil]
  rfl

theorem variable_complete {keyword : Word .kwVar} {name : Word .identifier}
    {semicolon : Word .semicolon}
    (h : Takes s (Statement.variable keyword name semicolon).yield s') :
    Reads True (variableDeclaration inner) s (.variable name.1 none) s' := by
  obtain ⟨hkeyword, hrest⟩ := h.uncons
  obtain ⟨hname, hsemicolon⟩ := hrest.uncons
  have hexpect : expect .variableName s.tail = .ok name.1 s.tail.tail := expect_of_takes hrest
  have hexpect' : expect .variableEnd s.tail.tail = .ok semicolon.1 s.tail.tail.tail :=
    expect_of_takes hsemicolon
  refine .after (pop_eq_ok.mpr ⟨hkeyword, rfl⟩) (.after hexpect ?_)
  refine .check_of_not_mem (hsemicolon.next_word (by simp)) (.of_ok ?_)
  rw [← hsemicolon.uncons.2.eq_of_nil]
  exact bind_of_ok hexpect' _

theorem initialized_complete (hinner : Expression.Complete depth inner) {keyword : Word .kwVar}
    {name : Word .identifier} {equals : Word .equal} {initializer : Expression}
    {semicolon : Word .semicolon}
    (h : Takes s (Statement.initialized keyword name equals initializer semicolon).yield s') :
    Reads (initializer.Fits depth) (variableDeclaration inner) s
      (.variable name.1 (some initializer.tree)) s' := by
  obtain ⟨hkeyword, hrest⟩ := h.uncons
  obtain ⟨hname, hequals⟩ := hrest.uncons
  obtain ⟨hhead, htail⟩ := hequals.uncons
  obtain ⟨t, hinitializer, hsemicolon⟩ := htail.of_append
  have hexpect : expect .variableName s.tail = .ok name.1 s.tail.tail := expect_of_takes hrest
  have hexpect' : expect .variableEnd t = .ok semicolon.1 t.tail := expect_of_takes hsemicolon
  refine .after (pop_eq_ok.mpr ⟨hkeyword, rfl⟩) (.after hexpect ?_)
  refine .check_of_mem ⟨equals.1, hhead, by simp [equals.2]⟩ ?_
  refine .after (pop_eq_ok.mpr ⟨hhead, rfl⟩) ?_
  refine .ended ((hinner hinitializer (hsemicolon.next_word ends_semicolon)).map some) ?_
  rw [← hsemicolon.uncons.2.eq_of_nil]
  exact bind_of_ok hexpect' _

theorem function_complete (hstatement : Statement.Complete depth statement)
    {keyword : Word .kwFun} {name : Word .identifier} {left : Word .leftParen}
    {parameters : Parameters} {right : Word .rightParen} {start : Word .leftBrace}
    {body : Statements} {stop : Word .rightBrace} (hs : s.Genuine)
    (h : Takes s (Statement.function keyword name left parameters right start body stop).yield s')
    (hnear : body.Near) :
    Reads (body.Fits depth) (functionDeclaration statement) s
      (.function () name.1 parameters.names body.trees) s' := by
  obtain ⟨hkeyword, hname⟩ := h.uncons
  obtain ⟨-, hleft⟩ := hname.uncons
  obtain ⟨t, hparameters, hright⟩ := hleft.uncons.2.of_append
  obtain ⟨-, hstart⟩ := hright.uncons
  have hnames := parameters_complete hparameters (hright.next_word rfl)
  have hs' := (hparameters.genuine hs.tail.tail.tail).tail.tail
  have hblock := block_complete hstatement hs' hstart.uncons.2 hnear
  have hexpect : expect .functionName s.tail = .ok name.1 s.tail.tail := expect_of_takes hname
  have hexpectLeft : expect .parametersStart s.tail.tail = .ok left.1 s.tail.tail.tail :=
    expect_of_takes hleft
  have hexpectRight : expect .parametersEnd t = .ok right.1 t.tail := expect_of_takes hright
  have hexpectStart : expect .bodyStart t.tail = .ok start.1 t.tail.tail := expect_of_takes hstart
  refine .after (pop_eq_ok.mpr ⟨hkeyword, rfl⟩) (.after hexpect (.after hexpectLeft ?_))
  refine (hnames.bind (g := body.Fits depth) ?_).congr (by simp)
  exact .after hexpectRight (.after hexpectStart (.ended hblock rfl))

/-- The condition of a conditional or a loop, and what stands behind it. -/
theorem condition_complete (hinner : Expression.Complete depth inner) {start stop : Expectation}
    (hstart : start.kind = .leftParen) (hstop : stop.kind = .rightParen) {left : Word .leftParen}
    {condition : Expression} {right : Word .rightParen} {ts : List Token} {α : Type}
    {k : Expr Unit → Parser α} {g : Prop} {a : α}
    (h : Takes s (left.1 :: (condition.yield ++ right.1 :: ts)) s')
    (hk : ∀ {t}, Takes t ts s' → (s.Genuine → t.Genuine) → Reads g (k condition.tree) t a s') :
    Reads (condition.Fits depth ∧ g) (do
      let _ ← expect start
      let condition ← inner
      let _ ← expect stop
      k condition) s a s' := by
  obtain ⟨hleft, hrest⟩ := h.uncons
  obtain ⟨t, hcondition, hright⟩ := hrest.of_append
  obtain ⟨hhead, htail⟩ := hright.uncons
  refine .after (expect_eq_ok.mpr ⟨hleft, left.2.trans hstart.symm, rfl⟩) ?_
  refine .bind (hinner hcondition (hright.next_word ends_rightParen)) ?_
  refine .after (expect_eq_ok.mpr ⟨hhead, right.2.trans hstop.symm, rfl⟩) ?_
  exact hk htail fun hs => (hcondition.genuine hs.tail).tail

theorem conditional_complete (hinner : Expression.Complete depth inner)
    (hstatement : Statement.Complete depth statement) {keyword : Word .kwIf}
    {left : Word .leftParen} {condition : Expression} {right : Word .rightParen} {yes : Statement}
    (hs : s.Genuine)
    (h : Takes s (Statement.conditional keyword left condition right yes).yield s')
    (hnear : yes.Near) (hnext : Next (fun kind => kind ≠ .kwElse) s') :
    Reads (condition.Fits depth ∧ yes.Fits depth) (conditional inner statement) s
      (.conditional condition.tree yes.tree none) s' := by
  obtain ⟨hkeyword, hrest⟩ := h.uncons
  refine .after (pop_eq_ok.mpr ⟨hkeyword, rfl⟩) ?_
  refine condition_complete hinner rfl rfl hrest fun hyes hs' => ?_
  obtain ⟨t, hhead, hkind⟩ := hnext
  have hcheck : check [.kwElse] s' = .ok false s' :=
    check_eq_ok.mpr ⟨t, hhead, by simpa using hkind, rfl⟩
  exact .ended (hstatement (hs' hs.tail) hyes hnear fun _ => ⟨t, hhead, hkind⟩)
    (bind_of_ok hcheck _)

theorem alternative_complete (hinner : Expression.Complete depth inner)
    (hstatement : Statement.Complete depth statement) {keyword : Word .kwIf}
    {left : Word .leftParen} {condition : Expression} {right : Word .rightParen}
    {yes no : Statement} {otherwise : Word .kwElse} (hs : s.Genuine)
    (h : Takes s (Statement.alternative keyword left condition right yes otherwise no).yield s')
    (hnear : yes.Near ∧ yes.isOpen = false ∧ no.Near) (hclosed : no.Closed s') :
    Reads (condition.Fits depth ∧ yes.Fits depth ∧ no.Fits depth) (conditional inner statement) s
      (.conditional condition.tree yes.tree (some no.tree)) s' := by
  obtain ⟨hkeyword, hrest⟩ := h.uncons
  refine .after (pop_eq_ok.mpr ⟨hkeyword, rfl⟩) ?_
  refine condition_complete hinner rfl rfl hrest fun htail hs' => ?_
  obtain ⟨t, hyes, helse⟩ := htail.of_append
  obtain ⟨hhead, hno⟩ := helse.uncons
  have hs'' := hyes.genuine (hs' hs.tail)
  refine .bind (hstatement (hs' hs.tail) hyes hnear.1
    (Statement.closed_of_isOpen_eq_false hnear.2.1)) ?_
  refine .check_of_mem ⟨otherwise.1, hhead, by simp [otherwise.2]⟩ ?_
  refine .after (pop_eq_ok.mpr ⟨hhead, rfl⟩) ?_
  exact .ended (hstatement hs''.tail hno hnear.2.2 hclosed) rfl

theorem loop_complete (hinner : Expression.Complete depth inner)
    (hstatement : Statement.Complete depth statement) {keyword : Word .kwWhile}
    {left : Word .leftParen} {condition : Expression} {right : Word .rightParen} {body : Statement}
    (hs : s.Genuine) (h : Takes s (Statement.loop keyword left condition right body).yield s')
    (hnear : body.Near) (hclosed : body.Closed s') :
    Reads (condition.Fits depth ∧ body.Fits depth) (loop inner statement) s
      (.loop condition.tree body.tree) s' := by
  obtain ⟨hkeyword, hrest⟩ := h.uncons
  refine .after (pop_eq_ok.mpr ⟨hkeyword, rfl⟩) ?_
  refine condition_complete hinner rfl rfl hrest fun hbody hs' => ?_
  exact .ended (hstatement (hs' hs.tail) hbody hnear hclosed) rfl

theorem return_complete {keyword : Word .kwReturn} {semicolon : Word .semicolon}
    (h : Takes s (Statement.return keyword semicolon).yield s') :
    Reads True (returning inner) s (.return keyword.1 none) s' := by
  obtain ⟨hkeyword, hrest⟩ := h.uncons
  have hexpect : expect .returnEnd s.tail = .ok semicolon.1 s.tail.tail := expect_of_takes hrest
  refine .after (pop_eq_ok.mpr ⟨hkeyword, rfl⟩) ?_
  refine .check_of_mem (hrest.next_word (by simp)) (.of_ok ?_)
  rw [← hrest.uncons.2.eq_of_nil]
  exact bind_of_ok hexpect _

theorem returning_complete (hinner : Expression.Complete depth inner) {keyword : Word .kwReturn}
    {value : Expression} {semicolon : Word .semicolon}
    (h : Takes s (Statement.returning keyword value semicolon).yield s') :
    Reads (value.Fits depth) (returning inner) s (.return keyword.1 (some value.tree)) s' := by
  obtain ⟨hkeyword, hrest⟩ := h.uncons
  obtain ⟨t, hvalue, hsemicolon⟩ := hrest.of_append
  have hexpect : expect .returnEnd t = .ok semicolon.1 t.tail := expect_of_takes hsemicolon
  have hstarters : ∀ kind ∈ starters, kind ∉ [Kind.semicolon] := by
    simp [starters, primaryStarters]
  refine .after (pop_eq_ok.mpr ⟨hkeyword, rfl⟩) ?_
  refine .check_of_not_mem ((hrest.next (value.starts.append _)).mono hstarters) ?_
  refine .ended ((hinner hvalue (hsemicolon.next_word ends_semicolon)).map some) ?_
  rw [← hsemicolon.uncons.2.eq_of_nil]
  exact bind_of_ok hexpect _

end Parts

/-- Statements of any depth. -/
theorem statement_complete (depth : Nat) : Statement.Complete depth (Parser.statement depth) := by
  induction depth with
  | zero =>
    intro d s s' _ _ _ _
    have hfits : ¬d.Fits 0 := by cases d <;> exact id
    exact .tooDeep hfits
  | succ depth ih =>
    intro d s s' hs h hnear hclosed
    have hinner := expression_complete depth
    unfold Parser.statement
    cases d with
    | endOfInput token =>
      obtain ⟨hhead, hnil⟩ := h.uncons
      refine .after (peek_eq_ok.mpr ⟨hhead, rfl⟩) ?_
      rw [token.2, ← hnil.eq_of_nil]
      exact .after (pop_eq_ok.mpr ⟨hhead, rfl⟩) (.of_ok rfl)
    | «variable» keyword name semicolon =>
      refine .after (peek_eq_ok.mpr ⟨h.uncons.1, rfl⟩) ?_
      rw [keyword.2]
      exact variable_complete h
    | initialized keyword name equals initializer semicolon =>
      refine .after (peek_eq_ok.mpr ⟨h.uncons.1, rfl⟩) ?_
      rw [keyword.2]
      exact initialized_complete hinner h
    | function keyword name left parameters right start body stop =>
      refine .after (peek_eq_ok.mpr ⟨h.uncons.1, rfl⟩) ?_
      rw [keyword.2]
      exact function_complete ih hs h hnear
    | block start body stop =>
      obtain ⟨hhead, hbody⟩ := h.uncons
      refine .after (peek_eq_ok.mpr ⟨hhead, rfl⟩) ?_
      rw [start.2]
      refine .after (pop_eq_ok.mpr ⟨hhead, rfl⟩) ?_
      exact .ended (block_complete ih hs.tail hbody hnear) rfl
    | conditional keyword left condition right yes =>
      refine .after (peek_eq_ok.mpr ⟨h.uncons.1, rfl⟩) ?_
      rw [keyword.2]
      exact conditional_complete hinner ih hs h hnear (hclosed rfl)
    | alternative keyword left condition right yes otherwise no =>
      refine .after (peek_eq_ok.mpr ⟨h.uncons.1, rfl⟩) ?_
      rw [keyword.2]
      exact alternative_complete hinner ih hs h hnear hclosed
    | loop keyword left condition right body =>
      refine .after (peek_eq_ok.mpr ⟨h.uncons.1, rfl⟩) ?_
      rw [keyword.2]
      exact loop_complete hinner ih hs h hnear hclosed
    | print keyword value semicolon =>
      obtain ⟨hhead, hvalue⟩ := h.uncons
      refine .after (peek_eq_ok.mpr ⟨hhead, rfl⟩) ?_
      rw [keyword.2]
      exact .after (pop_eq_ok.mpr ⟨hhead, rfl⟩) (.ended (ended_complete hinner hvalue) rfl)
    | assert keyword condition semicolon =>
      obtain ⟨hhead, hcondition⟩ := h.uncons
      refine .after (peek_eq_ok.mpr ⟨hhead, rfl⟩) ?_
      rw [keyword.2]
      exact .after (pop_eq_ok.mpr ⟨hhead, rfl⟩) (.ended (ended_complete hinner hcondition) rfl)
    | «return» keyword semicolon =>
      refine .after (peek_eq_ok.mpr ⟨h.uncons.1, rfl⟩) ?_
      rw [keyword.2]
      exact return_complete h
    | returning keyword value semicolon =>
      refine .after (peek_eq_ok.mpr ⟨h.uncons.1, rfl⟩) ?_
      rw [keyword.2]
      exact returning_complete hinner h
    | expression value semicolon =>
      obtain ⟨t, hhead, hkind⟩ := h.next (value.starts.append _)
      have hended : Reads (value.Fits depth) (do
          return Stmt.expression (← ended (Parser.expression depth))) s (.expression value.tree)
          s' := .ended (ended_complete hinner h) rfl
      refine .after (peek_eq_ok.mpr ⟨hhead, rfl⟩) ?_
      -- None of the kinds that an expression starts with is the word of another statement.
      generalize t.kind = kind at hkind
      cases kind with
      | eof | kwVar | kwFun | leftBrace | kwIf | kwWhile | kwPrint | kwAssert | kwReturn =>
        simp [starters, primaryStarters] at hkind
      | _ => exact hended

end Grammar

end Lox
