import Lox.Proofs.Grammar.Joining

/-!
# One token of lookahead

A statement that ends with an open conditional is handed out only when the token behind it is known
not to be an `else`. Where a lexical error stands there instead of a token, the statement is lost:
the error is raised in its place. Every other statement is handed out whatever stands behind it.
-/
namespace Lox

namespace Grammar
open Outcome Lox.Parser
variable {s s' t : TokenStream} {depth : Nat} {e : LexicalError}

theorem check_of_head_error (h : s.head = .error e) (kinds : List Kind) :
    check kinds s = .error (.lexical e) s.tail := by
  have hpeek : peek s = .error (.lexical e) s.tail := by
    rw [peek, h]
  exact bind_of_error hpeek _

/-- The condition of a conditional or a loop is read, and then what stands behind it. -/
theorem condition_read {inner : Parser (Expr Unit)} (hinner : Expression.Complete depth inner)
    (start stop : Expectation) (hstart : start.kind = .leftParen) (hstop : stop.kind = .rightParen)
    {left : Word .leftParen} {condition : Expression} {right : Word .rightParen} {ts : List Token}
    (h : Takes s (left.1 :: (condition.yield ++ right.1 :: ts)) s')
    (hfits : condition.Fits depth) (hs : s.Genuine) :
    ∃ t, Takes t ts s' ∧ t.Genuine ∧ ∀ {α : Type} (k : Expr Unit → Parser α), (do
      let _ ← expect start
      let condition ← inner
      let _ ← expect stop
      k condition) s = k condition.tree t := by
  obtain ⟨hleft, hrest⟩ := h.uncons
  obtain ⟨t, hcondition, hright⟩ := hrest.of_append
  obtain ⟨hhead, htail⟩ := hright.uncons
  have hopening : expect start s = .ok left.1 s.tail :=
    expect_eq_ok.mpr ⟨hleft, left.2.trans hstart.symm, rfl⟩
  have hclosing : expect stop t = .ok right.1 t.tail :=
    expect_eq_ok.mpr ⟨hhead, right.2.trans hstop.symm, rfl⟩
  have hread : inner s.tail = .ok condition.tree t := by
    obtain ⟨-, hok⟩ | ⟨hdeep, -⟩ := hinner hcondition (hright.next_word ends_rightParen)
    · exact hok
    · exact absurd hfits hdeep
  refine ⟨t.tail, htail, (hcondition.genuine hs.tail).tail, fun k => ?_⟩
  rw [bind_of_ok hopening, bind_of_ok hread, bind_of_ok hclosing]

/-- A statement that is complete without what follows is read. -/
theorem statement_read {d : Statement} (hs : s.Genuine) (h : Takes s d.yield s') (hnear : d.Near)
    (hopen : d.isOpen = false) (hfits : d.Fits depth) :
    Parser.statement depth s = .ok d.tree s' := by
  have hclosed : d.Closed s' := fun hd => by
    rw [hopen] at hd
    cases hd
  obtain ⟨-, hok⟩ | ⟨hdeep, -⟩ := statement_complete depth hs h hnear hclosed
  · exact hok
  · exact absurd hfits hdeep

/-- A statement that could be carried on by an `else` is refused where a lexical error follows. The
statement that is open in it at its end is refused for the same reason. -/
theorem statement_refused {d : Statement} (hs : s.Genuine) (h : Takes s d.yield s') (hnear : d.Near)
    (hopen : d.isOpen = true) (hfits : d.Fits depth) (herror : s'.head = .error e) :
    Parser.statement depth s = .error (.lexical e) s'.tail := by
  induction depth generalizing d s with
  | zero => cases d <;> exact absurd hfits id
  | succ depth ih =>
    have hinner := expression_complete depth
    unfold Parser.statement
    cases d with
    | conditional keyword left condition right yes =>
      obtain ⟨hcondition, hyes⟩ : condition.Fits depth ∧ yes.Fits depth := hfits
      obtain ⟨hkeyword, hrest⟩ := h.uncons
      obtain ⟨t, htakes, ht, hread⟩ :=
        condition_read hinner .ifStart .ifEnd rfl rfl hrest hcondition hs.tail
      rw [bind_of_ok (peek_eq_ok.mpr ⟨hkeyword, rfl⟩), keyword.2]
      refine (bind_of_ok (pop_eq_ok.mpr ⟨hkeyword, rfl⟩) _).trans ((hread _).trans ?_)
      -- either the branch is refused, or the check for an `else` behind it
      cases hbranch : yes.isOpen with
      | true => exact bind_of_error (ih ht htakes hnear hbranch hyes) _
      | false =>
        rw [bind_of_ok (statement_read ht htakes hnear hbranch hyes)]
        exact bind_of_error (check_of_head_error herror _) _
    | alternative keyword left condition right yes otherwise no =>
      obtain ⟨hcondition, hyes, hno⟩ :
        condition.Fits depth ∧ yes.Fits depth ∧ no.Fits depth := hfits
      obtain ⟨hnearYes, hclosed, hnearNo⟩ := hnear
      obtain ⟨hkeyword, hrest⟩ := h.uncons
      obtain ⟨t, htakes, ht, hread⟩ :=
        condition_read hinner .ifStart .ifEnd rfl rfl hrest hcondition hs.tail
      obtain ⟨u, htakesYes, helse⟩ := htakes.of_append
      obtain ⟨hhead, htakesNo⟩ := helse.uncons
      rw [bind_of_ok (peek_eq_ok.mpr ⟨hkeyword, rfl⟩), keyword.2]
      refine (bind_of_ok (pop_eq_ok.mpr ⟨hkeyword, rfl⟩) _).trans ((hread _).trans ?_)
      have hcheck : check [.kwElse] u = .ok true u :=
        check_eq_ok.mpr ⟨otherwise.1, hhead, by simp [otherwise.2], rfl⟩
      have hpop : pop u = .ok otherwise.1 u.tail := pop_eq_ok.mpr ⟨hhead, rfl⟩
      rw [bind_of_ok (statement_read ht htakesYes hnearYes hclosed hyes), bind_of_ok hcheck]
      refine (bind_of_ok hpop _).trans (bind_of_error ?_ _)
      exact ih (htakesYes.genuine ht).tail htakesNo hnearNo hopen hno
    | loop keyword left condition right body =>
      obtain ⟨hcondition, hbody⟩ : condition.Fits depth ∧ body.Fits depth := hfits
      obtain ⟨hkeyword, hrest⟩ := h.uncons
      obtain ⟨t, htakes, ht, hread⟩ :=
        condition_read hinner .whileStart .whileEnd rfl rfl hrest hcondition hs.tail
      rw [bind_of_ok (peek_eq_ok.mpr ⟨hkeyword, rfl⟩), keyword.2]
      refine (bind_of_ok (pop_eq_ok.mpr ⟨hkeyword, rfl⟩) _).trans ((hread _).trans ?_)
      exact bind_of_error (ih ht htakes hnear hopen hbody) _
    | _ => cases hopen

/-- The error at the front of a stream is raised by the next statement. -/
theorem takeStatement_of_head_error (h : s.head = .error e) (depth : Nat) :
    s.takeStatement (depth + 1) = (.error (.lexical e), s.tail.sync) := by
  have hpeek : peek s = .error (.lexical e) s.tail := by
    rw [peek, h]
  rw [TokenStream.takeStatement, Parser.statement, bind_of_error hpeek]
  rfl

/-- A lexical error behind a statement that could be carried on takes the place of the statement. -/
theorem takeStatement_join_of_error {tree : Stmt Unit} {rest : TokenStream} (hs : s.Genuine)
    (ht : t.Genuine) (hpending : s.pending ≠ []) (h : s.takeStatement depth = (.ok tree, rest))
    (hrest : rest.pending = []) (hbody : tree.lacksBody = false) (hawaits : tree.awaitsElse = true)
    (herror : t.head = .error e) :
    (s.join t).takeStatement depth = (.error (.lexical e), t.tail.sync) := by
  obtain ⟨d, htakes, rfl, hnear, -, hfits, hunended⟩ := takeStatement_derives hs hpending h hbody
  have hjoined := htakes.join hunended t
  rw [TokenStream.join_of_pending_eq_nil hrest] at hjoined
  have hrefused := statement_refused (TokenStream.genuine_join hs ht) hjoined hnear
    (d.awaitsElse_tree ▸ hawaits) hfits herror
  rw [TokenStream.takeStatement, hrefused]
  rfl

/-- What is read of a text without an error whose last statement could be carried on, and of a text
with a lexical error at its front: everything but that statement. -/
theorem statements_join_of_error {front : List (Stmt Unit)} {last : Stmt Unit} (hs : s.Genuine)
    (ht : t.Genuine)
    (h : s.statements (depth + 1) = (front ++ [last]).map .ok ++ [.ok .endMarker])
    (hbodies : ∀ statement ∈ front ++ [last], statement.lacksBody = false)
    (hlast : last.awaitsElse = true) (herror : t.head = .error e) :
    (s.join t).statements (depth + 1) = front.map .ok ++ t.statements (depth + 1) := by
  induction front generalizing s with
  | nil =>
    have hpending : t.pending ≠ [] := fun hnil => by
      rw [TokenStream.head_of_pending_eq_nil hnil] at herror
      cases herror
    obtain ⟨hleft, rest, hgenuine, htake, hend⟩ := takeStatement_of_statements hs h (by simp)
    have hrest := pending_eq_nil_of_statements hgenuine hend
    have hjoined := takeStatement_join_of_error hs ht hleft htake hrest
      (hbodies last List.mem_cons_self) hlast herror
    rw [statements_join_of_pending_ne_nil hs ht hleft hjoined,
      statements_of_pending_ne_nil ht hpending (takeStatement_of_head_error herror depth)]
    rfl
  | cons statement front ih =>
    obtain ⟨hleft, rest, hgenuine, htake, hrest⟩ := takeStatement_of_statements hs h (by simp)
    have hmore : rest.pending ≠ [] := by
      cases front with
      | nil => exact (takeStatement_of_statements hgenuine hrest (by simp)).1
      | cons other front => exact (takeStatement_of_statements hgenuine hrest (by simp)).1
    have hjoined := takeStatement_join hs ht (fun hnil => absurd hnil hmore) hleft htake
      (hbodies statement List.mem_cons_self)
    rw [statements_join_of_pending_ne_nil hs ht hleft hjoined,
      ih hgenuine hrest fun other hmem => hbodies other (List.mem_cons_of_mem _ hmem)]
    rfl

/-- The last statement of a text is lost to what stands behind it: it could be carried on there, and
there is a lexical error. -/
def Undone (statements : List (Stmt Unit)) (other : TokenStream) : Prop :=
  (∃ last ∈ statements.getLast?, last.awaitsElse = true) ∧ ∃ e, other.head = .error e

/-- A statement does not stand where there is an error. -/
theorem not_prefix_of_error {α ε : Type} {front : List α} {last : α} {error : ε}
    {rest : List (Except ε α)} :
    ¬ (front ++ [last]).map .ok <+: front.map .ok ++ (.error error :: rest) := by
  rw [List.map_append, List.prefix_append_right_inj]
  intro hprefix
  cases (List.cons_prefix_cons.1 hprefix).1

/-- At no depth at all nothing is read. -/
theorem statements_zero (s : TokenStream) : ∃ error rest, s.statements 0 = .error error :: rest :=
  ⟨_, _, rfl⟩

/-- What is read of a text without an error, and of any text behind it that does not start with an
`else`. The statements of the first text come first, exactly if the last of them is not undone by the
second text; if it is, it is missing, and nothing else is different. -/
theorem statements_append_iff {source other : String} {statements : List (Stmt Unit)}
    (h : (TokenStream.ofText source).statements depth = statements.map .ok ++ [.ok .endMarker])
    (hbodies : ∀ statement ∈ statements, statement.lacksBody = false)
    (helse : ∀ token, (TokenStream.ofText other).head = .ok token → token.kind ≠ .kwElse) :
    (statements.map .ok <+: (TokenStream.ofText (source ++ "\n" ++ other)).statements depth ↔
      ¬ Undone statements (.ofText other)) ∧
    (¬ Undone statements (.ofText other) →
      (TokenStream.ofText (source ++ "\n" ++ other)).statements depth =
        statements.map .ok ++ ((TokenStream.ofText other).statements depth).map
          (relineItem (· + (TokenStream.ofText source).lastLine))) ∧
    (Undone statements (.ofText other) →
      (TokenStream.ofText (source ++ "\n" ++ other)).statements depth =
        statements.dropLast.map .ok ++ ((TokenStream.ofText other).statements depth).map
          (relineItem (· + (TokenStream.ofText source).lastLine))) := by
  have hs := TokenStream.genuine_ofText source
  have ht := TokenStream.genuine_ofText other
  cases depth with
  | zero =>
    obtain ⟨error, rest, hzero⟩ := statements_zero (.ofText source)
    rw [hzero] at h
    cases statements <;> cases h
  | succ depth =>
    have hkept (hdone : ¬ Undone statements (.ofText other)) :
        (TokenStream.ofText (source ++ "\n" ++ other)).statements (depth + 1) =
          statements.map .ok ++ ((TokenStream.ofText other).statements (depth + 1)).map
            (relineItem (· + (TokenStream.ofText source).lastLine)) := by
      refine statements_ofText_append h hbodies fun hlast => ?_
      cases hhead : (TokenStream.ofText other).head with
      | ok token => exact ⟨token, hhead, helse token hhead⟩
      | error e => exact absurd ⟨hlast, e, hhead⟩ hdone
    have hlost (hundone : Undone statements (.ofText other)) :
        (TokenStream.ofText (source ++ "\n" ++ other)).statements (depth + 1) =
          statements.dropLast.map .ok ++ ((TokenStream.ofText other).statements (depth + 1)).map
            (relineItem (· + (TokenStream.ofText source).lastLine)) := by
      obtain ⟨⟨last, hlast, hawaits⟩, e, hhead⟩ := hundone
      have hsplit := List.dropLast_append_getLast? last hlast
      have hrelined : ((TokenStream.ofText other).reline
          (· + (TokenStream.ofText source).lastLine)).head =
            .error (e.reline (· + (TokenStream.ofText source).lastLine)) := by
        rw [(TokenStream.lockstep_reline _).head rfl, hhead]
        rfl
      have hread : (TokenStream.ofText source).statements (depth + 1) =
          (statements.dropLast ++ [last]).map .ok ++ [.ok .endMarker] := by
        rw [hsplit]
        exact h
      have hall : ∀ statement ∈ statements.dropLast ++ [last], statement.lacksBody = false := by
        rw [hsplit]
        exact hbodies
      rw [ofText_append_of_statements h other, statements_join_of_error hs
        (TokenStream.genuine_reline ht _) hread hall hawaits hrelined, TokenStream.statements_reline]
    refine ⟨⟨fun hprefix hundone => ?_, fun hdone => ?_⟩, hkept, hlost⟩
    · rw [hlost hundone] at hprefix
      obtain ⟨⟨last, hlast, -⟩, e, hhead⟩ := hundone
      have hpending : (TokenStream.ofText other).pending ≠ [] := fun hnil => by
        rw [TokenStream.head_of_pending_eq_nil hnil] at hhead
        cases hhead
      rw [statements_of_pending_ne_nil ht hpending (takeStatement_of_head_error hhead depth),
        ← List.dropLast_append_getLast? last hlast, List.dropLast_concat] at hprefix
      exact not_prefix_of_error hprefix
    · rw [hkept hdone]
      exact List.prefix_append _ _

/-- A conditional without an alternative, alone in its text, is read. -/
theorem exists_statements_conditional :
    ∃ statements : List (Stmt Unit), (TokenStream.ofText "if (true) nil;").statements 500 =
        statements.map .ok ++ [.ok .endMarker] ∧
      (∀ statement ∈ statements, statement.lacksBody = false) ∧ statements ≠ [] := by
  have hall : ((TokenStream.ofText "if (true) nil;").statements 500).all
      (fun item => item.toOption.any fun statement => !statement.lacksBody) = true := by
    decide +kernel
  have hlength : ((TokenStream.ofText "if (true) nil;").statements 500).length = 2 := by
    decide +kernel
  have hitems : ∀ item ∈ (TokenStream.ofText "if (true) nil;").statements (499 + 1),
      ∃ statement : Stmt Unit, item = .ok statement ∧ statement.lacksBody = false := by
    intro item hitem
    have hbody := List.all_eq_true.mp hall item hitem
    cases item with
    | error e => cases hbody
    | ok statement => exact ⟨statement, rfl, by simpa [Except.toOption] using hbody⟩
  obtain ⟨statements, hread, hbodies⟩ :=
    exists_statements (TokenStream.genuine_ofText "if (true) nil;") hitems
  refine ⟨statements, hread, fun statement hmem => (hbodies statement hmem).1, ?_⟩
  rintro rfl
  rw [hread] at hlength
  cases hlength

/-- A character that starts no token is no `else`. -/
theorem not_else_of_at (token : Token) (h : (TokenStream.ofText "@").head = .ok token) :
    token.kind ≠ .kwElse := by
  have herror : (TokenStream.ofText "@").head.toOption.isNone = true := by decide +kernel
  rw [h] at herror
  cases herror

theorem statements_append_iff_conditional :
    ∃ statements : List (Stmt Unit),
      (TokenStream.ofText "if (true) nil;").statements 500 =
        statements.map .ok ++ [.ok .endMarker] ∧
      (∀ statement ∈ statements, statement.lacksBody = false) ∧
      (∀ token, (TokenStream.ofText "@").head = .ok token → token.kind ≠ .kwElse) ∧
      (statements.map .ok <+:
          (TokenStream.ofText ("if (true) nil;" ++ "\n" ++ "@")).statements 500 ↔
        ¬ Undone statements (.ofText "@")) ∧
      (¬ Undone statements (.ofText "@") →
        (TokenStream.ofText ("if (true) nil;" ++ "\n" ++ "@")).statements 500 =
          statements.map .ok ++ ((TokenStream.ofText "@").statements 500).map
            (relineItem (· + (TokenStream.ofText "if (true) nil;").lastLine))) ∧
      (Undone statements (.ofText "@") →
        (TokenStream.ofText ("if (true) nil;" ++ "\n" ++ "@")).statements 500 =
          statements.dropLast.map .ok ++ ((TokenStream.ofText "@").statements 500).map
            (relineItem (· + (TokenStream.ofText "if (true) nil;").lastLine))) := by
  obtain ⟨statements, hread, hbodies, -⟩ := exists_statements_conditional
  exact ⟨statements, hread, hbodies, not_else_of_at,
    statements_append_iff hread hbodies not_else_of_at⟩

/-- Not every text without an error is read as before when another text stands behind it: behind a
conditional, a character that starts no token is an error in the place of the conditional. -/
theorem conditional_undone :
    ∃ statements : List (Stmt Unit),
      (TokenStream.ofText "if (true) nil;").statements 500 =
        statements.map .ok ++ [.ok .endMarker] ∧
      (∀ statement ∈ statements, statement.lacksBody = false) ∧
      (∀ token, (TokenStream.ofText "@").head = .ok token → token.kind ≠ .kwElse) ∧
      ¬ statements.map .ok <+:
        (TokenStream.ofText ("if (true) nil;" ++ "\n" ++ "@")).statements 500 := by
  obtain ⟨statements, hread, hbodies, hne⟩ := exists_statements_conditional
  refine ⟨statements, hread, hbodies, not_else_of_at, fun hprefix => ?_⟩
  have hfirst : ((TokenStream.ofText ("if (true) nil;" ++ "\n" ++ "@")).statements 500).head?.all
      (fun item => item.toOption.isNone) = true := by decide +kernel
  obtain ⟨behind, hbehind⟩ := hprefix
  cases statements with
  | nil => exact hne rfl
  | cons statement statements =>
    rw [← hbehind] at hfirst
    cases hfirst

end Grammar

end Lox
