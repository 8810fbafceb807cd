import Lox.Proofs.Grammar.Follow

/-!
# The grammar is unambiguous

Two derivations of one text are the same, as long as every `else` belongs to the nearest open
conditional. Each lemma takes two derivations that start at the same place of a text and are each
followed by what may follow them, and shows that they are the same and end at the same place.
-/
namespace Lox.Grammar
open Lox.Parser (Level levels)
variable {r r' : List Token}

/-- Derivations that start at the same place are the same, and end at the same place. -/
def Agree {δ : Type} (yield : δ → List Token) (follow : Kind → Prop) (d d' : δ) : Prop :=
  ∀ ⦃r r' : List Token⦄, Before follow r → Before follow r' → yield d ++ r = yield d' ++ r' →
    d = d' ∧ r = r'

theorem Agree.symm {δ : Type} {yield : δ → List Token} {follow : Kind → Prop} {d d' : δ}
    (h : Agree yield follow d d') : Agree yield follow d' d := by
  intro r r' hr hr' heq
  obtain ⟨rfl, rfl⟩ := h hr' hr heq.symm
  exact ⟨rfl, rfl⟩

/-- Derivations that start with different tokens do not start at the same place. -/
theorem Agree.of_starts {δ : Type} {yield : δ → List Token} {follow : Kind → Prop} {d d' : δ}
    {kinds kinds' : List Kind} (h : StartsIn kinds (yield d)) (h' : StartsIn kinds' (yield d'))
    (hkinds : ∀ kind ∈ kinds, kind ∉ kinds') : Agree yield follow d d' :=
  fun r r' _ _ heq => ((h.append r).ne (h'.append r') hkinds heq).elim

/-- Words of one kind that stand at the same place are the same. -/
theorem Word.eq_of_cons {kind : Kind} {w w' : Word kind} (h : w.1 :: r = w'.1 :: r') :
    w = w' ∧ r = r' := by
  obtain ⟨hword, hrest⟩ := List.cons.inj h
  exact ⟨Subtype.ext hword, hrest⟩

theorem OneOf.eq_of_cons {kinds : List Kind} {w w' : OneOf kinds} (h : w.1 :: r = w'.1 :: r') :
    w = w' ∧ r = r' := by
  obtain ⟨hword, hrest⟩ := List.cons.inj h
  exact ⟨Subtype.ext hword, hrest⟩

section Expressions

/-- What follows the operators of a level closes the tighter levels. -/
theorem Operands.before {level : Level} {tighter : List Level} (rest : Operands level tighter)
    (hordered : Ordered (level :: tighter)) (hr : Before (Closes (level :: tighter)) r) :
    Before (Closes tighter) (rest.yield ++ r) := by
  cases rest with
  | none => exact hr.mono fun _ => Closes.tail
  | more operator operand rest => exact .of_cons (hordered.1 _ operator.2).2

/-- No equals sign stands behind a name that an operation starts with. -/
theorem Operation.not_before_equal : ∀ {tighter : List Level} (d : Operation tighter)
    {name equals : Token} {ts r : List Token}, Closes tighter .equal →
    Before (fun kind => kind ≠ .equal) r → name.kind = .identifier → equals.kind = .equal →
      d.yield ++ r ≠ name :: equals :: ts
  | _, .unary (.operator operator operand), name, equals, ts, r, _, _, hname, _ => by
    have hstarts : StartsIn [.bang, .minus] ((Unary.operator operator operand).yield ++ r) :=
      .of_cons operator.2
    have hidentifier : StartsIn [.identifier] (name :: equals :: ts) := .of_word ⟨name, hname⟩
    exact hstarts.ne hidentifier (by simp)
  | _, .unary (.call callee calls), name, equals, ts, r, _, hr, hname, hequals => by
    intro h
    have hsingle : ∃ t : Token, callee.yield = [t] := by
      cases callee with
      | group left inner right =>
        obtain ⟨rfl, -⟩ := List.cons.inj h
        cases left.2.symm.trans hname
      | literal token => exact ⟨token.1, rfl⟩
      | true token => exact ⟨token.1, rfl⟩
      | false token => exact ⟨token.1, rfl⟩
      | nil token => exact ⟨token.1, rfl⟩
      | name token => exact ⟨token.1, rfl⟩
    obtain ⟨t, hsingle⟩ := hsingle
    rw [Operation.yield, Unary.yield, hsingle] at h
    obtain ⟨-, hrest⟩ := List.cons.inj h
    cases calls with
    | none =>
      refine absurd hequals ?_
      have hequal : r = equals :: ts := hrest
      rw [hequal] at hr
      exact hr.head
    | more left arguments right rest =>
      obtain ⟨rfl, -⟩ := List.cons.inj hrest
      cases left.2.symm.trans hequals
  | _, .chain first rest, _, _, _, r, hcloses, hr, hname, hequals => by
    rw [Operation.yield, List.append_assoc]
    refine first.not_before_equal hcloses.tail ?_ hname hequals
    cases rest with
    | none => exact hr
    | more operator operand rest =>
      refine .of_cons fun hequal => hcloses.2 _ List.mem_cons_self ?_
      rw [← hequal]
      exact operator.2

/-- An assignment is no operation. -/
theorem Expression.agree_assignment_operation (name : Word .identifier) (equals : Word .equal)
    (value : Expression) (operation : Operation levels) :
    Agree Expression.yield Ends (.assignment name equals value) (.operation operation) := by
  intro r r' _ hr' h
  have hequal : Before (fun kind => kind ≠ .equal) r' := hr'.mono fun _ hkind => hkind.1
  exact (operation.not_before_equal closes_levels_equal hequal name.2 equals.2 h.symm).elim

/-- An operator follows, or nothing that belongs to the level. -/
theorem Operands.agree_none_more {level : Level} {tighter : List Level}
    (operator : OneOf level.kinds) (operand : Operation tighter) (rest : Operands level tighter) :
    Agree (fun d : Operands level tighter => d.yield) (Closes (level :: tighter)) .none
      (.more operator operand rest) := by
  intro r r' hr _ h
  have hoperator : r = operator.1 :: (operand.yield ++ rest.yield ++ r') := h
  rw [hoperator] at hr
  exact (hr.head.2 _ List.mem_cons_self operator.2).elim

theorem Primary.agree_of_kinds {d d' : Primary} (h : ∀ kind ∈ d.kinds, kind ∉ d'.kinds) :
    Agree Primary.yield (fun _ => True) d d' :=
  .of_starts d.starts_kinds d'.starts_kinds h

theorem Unary.agree_operator_call (operator : OneOf [.bang, .minus]) (operand : Unary)
    (callee : Primary) (calls : Calls) :
    Agree Unary.yield (Closes []) (.operator operator operand) (.call callee calls) := by
  have hoperator : StartsIn [.bang, .minus] (Unary.operator operator operand).yield :=
    .of_cons operator.2
  have hcallee : StartsIn primaryStarters (Unary.call callee calls).yield :=
    callee.starts.append _
  exact .of_starts hoperator hcallee (by simp [primaryStarters])

theorem Calls.agree_none_more (left : Word .leftParen) (arguments : Arguments)
    (right : Word .rightParen) (rest : Calls) :
    Agree Calls.yield (Closes []) .none (.more left arguments right rest) := by
  intro r r' hr _ h
  have hleft : r = left.1 :: (arguments.yield ++ right.1 :: rest.yield ++ r') := h
  rw [hleft] at hr
  exact (hr.head.1 left.2).elim

theorem MoreArguments.agree_none_more (comma : Word .comma) (argument : Expression)
    (rest : MoreArguments) :
    Agree MoreArguments.yield (fun kind => kind = .rightParen) .none
      (.more comma argument rest) := by
  intro r r' hr _ h
  have hcomma : r = comma.1 :: (argument.yield ++ rest.yield ++ r') := h
  rw [hcomma] at hr
  cases comma.2.symm.trans hr.head

theorem MoreArguments.before (rest : MoreArguments)
    (hr : Before (fun kind => kind = .rightParen) r) : Before Ends (rest.yield ++ r) := by
  cases rest with
  | none => exact hr.mono fun kind hkind => hkind ▸ ends_rightParen
  | more comma argument rest =>
    refine .of_cons ?_
    rw [comma.2]
    exact ends_comma

mutual

theorem Expression.agree (d d' : Expression) : Agree Expression.yield Ends d d' := by
  cases d with
  | assignment name equals value =>
    cases d' with
    | assignment name' equals' value' =>
      intro r r' hr hr' h
      obtain ⟨rfl, hequals⟩ := Word.eq_of_cons h
      obtain ⟨rfl, hvalue⟩ := Word.eq_of_cons hequals
      obtain ⟨rfl, rfl⟩ := value.agree value' hr hr' hvalue
      exact ⟨rfl, rfl⟩
    | operation operation => exact Expression.agree_assignment_operation name equals value operation
  | operation operation =>
    cases d' with
    | assignment name equals value =>
      exact (Expression.agree_assignment_operation name equals value operation).symm
    | operation operation' =>
      intro r r' hr hr' h
      obtain ⟨rfl, rfl⟩ := operation.agree operation' levels_ordered
        (hr.mono fun _ hkind => hkind.2) (hr'.mono fun _ hkind => hkind.2) h
      exact ⟨rfl, rfl⟩
termination_by structural d

theorem Operation.agree : ∀ {tighter : List Level} (d d' : Operation tighter), Ordered tighter →
    Agree (fun d : Operation tighter => d.yield) (Closes tighter) d d'
  | _, .unary operand, .unary operand', _ => by
    intro r r' hr hr' h
    obtain ⟨rfl, rfl⟩ := operand.agree operand' hr hr' h
    exact ⟨rfl, rfl⟩
  | _, .chain first rest, .chain first' rest', hordered => by
    intro r r' hr hr' h
    simp only [Operation.yield, List.append_assoc] at h
    obtain ⟨rfl, hrest⟩ := first.agree first' hordered.2 (rest.before hordered hr)
      (rest'.before hordered hr') h
    obtain ⟨rfl, rfl⟩ := rest.agree rest' hordered hr hr' hrest
    exact ⟨rfl, rfl⟩
termination_by structural _ d => d

theorem Operands.agree : ∀ {level : Level} {tighter : List Level} (d d' : Operands level tighter),
    Ordered (level :: tighter) →
      Agree (fun d : Operands level tighter => d.yield) (Closes (level :: tighter)) d d'
  | _, _, .none, .none, _ => fun _ _ _ _ h => ⟨rfl, h⟩
  | _, _, .none, .more operator operand rest, _ =>
    Operands.agree_none_more operator operand rest
  | _, _, .more operator operand rest, .none, _ =>
    (Operands.agree_none_more operator operand rest).symm
  | _, _, .more operator operand rest, .more operator' operand' rest', hordered => by
    intro r r' hr hr' h
    obtain ⟨rfl, hoperand⟩ := OneOf.eq_of_cons h
    simp only [List.append_eq, List.append_assoc] at hoperand
    obtain ⟨rfl, hrest⟩ := operand.agree operand' hordered.2 (rest.before hordered hr)
      (rest'.before hordered hr') hoperand
    obtain ⟨rfl, rfl⟩ := rest.agree rest' hordered hr hr' hrest
    exact ⟨rfl, rfl⟩
termination_by structural _ _ d => d

theorem Unary.agree (d d' : Unary) : Agree Unary.yield (Closes []) d d' := by
  cases d with
  | operator operator operand =>
    cases d' with
    | operator operator' operand' =>
      intro r r' hr hr' h
      obtain ⟨rfl, hoperand⟩ := OneOf.eq_of_cons h
      obtain ⟨rfl, rfl⟩ := operand.agree operand' hr hr' hoperand
      exact ⟨rfl, rfl⟩
    | call callee calls => exact Unary.agree_operator_call operator operand callee calls
  | call callee calls =>
    cases d' with
    | operator operator operand =>
      exact (Unary.agree_operator_call operator operand callee calls).symm
    | call callee' calls' =>
      intro r r' hr hr' h
      simp only [Unary.yield, List.append_assoc] at h
      obtain ⟨rfl, hcalls⟩ := callee.agree callee' (fun _ _ => trivial) (fun _ _ => trivial) h
      obtain ⟨rfl, rfl⟩ := calls.agree calls' hr hr' hcalls
      exact ⟨rfl, rfl⟩
termination_by structural d

theorem Calls.agree (d d' : Calls) : Agree Calls.yield (Closes []) d d' := by
  cases d with
  | none =>
    cases d' with
    | none => exact fun _ _ _ _ h => ⟨rfl, h⟩
    | more left arguments right rest => exact Calls.agree_none_more left arguments right rest
  | more left arguments right rest =>
    cases d' with
    | none => exact (Calls.agree_none_more left arguments right rest).symm
    | more left' arguments' right' rest' =>
      intro r r' hr hr' h
      obtain ⟨rfl, harguments⟩ := Word.eq_of_cons h
      simp only [List.append_eq, List.append_assoc, List.cons_append] at harguments
      obtain ⟨rfl, hright⟩ := arguments.agree arguments' (.of_cons right.2) (.of_cons right'.2)
        harguments
      obtain ⟨rfl, hrest⟩ := Word.eq_of_cons hright
      obtain ⟨rfl, rfl⟩ := rest.agree rest' hr hr' hrest
      exact ⟨rfl, rfl⟩
termination_by structural d

theorem Arguments.agree (d d' : Arguments) :
    Agree Arguments.yield (fun kind => kind = .rightParen) d d' := by
  cases d with
  | none =>
    cases d' with
    | none => exact fun _ _ _ _ h => ⟨rfl, h⟩
    | some first rest =>
      intro r r' hr _ h
      exact (((first.starts.append _).append _).ne_of_before hr (by simp [starters, primaryStarters])
        h.symm).elim
  | some first rest =>
    cases d' with
    | none =>
      intro r r' _ hr' h
      exact (((first.starts.append _).append _).ne_of_before hr'
        (by simp [starters, primaryStarters]) h).elim
    | some first' rest' =>
      intro r r' hr hr' h
      simp only [Arguments.yield, List.append_assoc] at h
      obtain ⟨rfl, hrest⟩ := first.agree first' (rest.before hr) (rest'.before hr') h
      obtain ⟨rfl, rfl⟩ := rest.agree rest' hr hr' hrest
      exact ⟨rfl, rfl⟩
termination_by structural d

theorem MoreArguments.agree (d d' : MoreArguments) :
    Agree MoreArguments.yield (fun kind => kind = .rightParen) d d' := by
  cases d with
  | none =>
    cases d' with
    | none => exact fun _ _ _ _ h => ⟨rfl, h⟩
    | more comma argument rest => exact MoreArguments.agree_none_more comma argument rest
  | more comma argument rest =>
    cases d' with
    | none => exact (MoreArguments.agree_none_more comma argument rest).symm
    | more comma' argument' rest' =>
      intro r r' hr hr' h
      obtain ⟨rfl, hargument⟩ := Word.eq_of_cons h
      simp only [List.append_eq, List.append_assoc] at hargument
      obtain ⟨rfl, hrest⟩ := argument.agree argument' (rest.before hr) (rest'.before hr') hargument
      obtain ⟨rfl, rfl⟩ := rest.agree rest' hr hr' hrest
      exact ⟨rfl, rfl⟩
termination_by structural d

theorem Primary.agree (d d' : Primary) : Agree Primary.yield (fun _ => True) d d' := by
  cases d with
  | literal token =>
    cases d' with
    | literal token' =>
      intro r r' _ _ h
      obtain ⟨rfl, rfl⟩ := OneOf.eq_of_cons h
      exact ⟨rfl, rfl⟩
    | _ => exact Primary.agree_of_kinds (by simp [Primary.kinds])
  | true token =>
    cases d' with
    | true token' =>
      intro r r' _ _ h
      obtain ⟨rfl, rfl⟩ := Word.eq_of_cons h
      exact ⟨rfl, rfl⟩
    | _ => exact Primary.agree_of_kinds (by simp [Primary.kinds])
  | false token =>
    cases d' with
    | false token' =>
      intro r r' _ _ h
      obtain ⟨rfl, rfl⟩ := Word.eq_of_cons h
      exact ⟨rfl, rfl⟩
    | _ => exact Primary.agree_of_kinds (by simp [Primary.kinds])
  | nil token =>
    cases d' with
    | nil token' =>
      intro r r' _ _ h
      obtain ⟨rfl, rfl⟩ := Word.eq_of_cons h
      exact ⟨rfl, rfl⟩
    | _ => exact Primary.agree_of_kinds (by simp [Primary.kinds])
  | name token =>
    cases d' with
    | name token' =>
      intro r r' _ _ h
      obtain ⟨rfl, rfl⟩ := Word.eq_of_cons h
      exact ⟨rfl, rfl⟩
    | _ => exact Primary.agree_of_kinds (by simp [Primary.kinds])
  | group left inner right =>
    cases d' with
    | group left' inner' right' =>
      intro r r' _ _ h
      obtain ⟨rfl, hinner⟩ := Word.eq_of_cons h
      simp only [List.append_eq, List.append_assoc, List.cons_append] at hinner
      have hends : ∀ (w : Word .rightParen) (ts : List Token), Before Ends (w.1 :: ts) :=
        fun w _ => .of_cons (by rw [w.2]; exact ends_rightParen)
      obtain ⟨rfl, hright⟩ := inner.agree inner' (hends right _) (hends right' _) hinner
      obtain ⟨rfl, rfl⟩ := Word.eq_of_cons hright
      exact ⟨rfl, rfl⟩
    | _ => exact Primary.agree_of_kinds (by simp [Primary.kinds])
termination_by structural d

end

end Expressions

section Statements

/-- Parameters behind the first one. -/
theorem Parameters.agree_rest (rest rest' : List (Word .comma × Word .identifier)) :
    Agree (fun rest : List (Word .comma × Word .identifier) =>
      rest.flatMap fun (comma, name) => [comma.1, name.1]) (fun kind => kind = .rightParen)
      rest rest' := by
  have hnil : ∀ (item : Word .comma × Word .identifier) rest,
      Agree (fun rest : List (Word .comma × Word .identifier) =>
        rest.flatMap fun (comma, name) => [comma.1, name.1]) (fun kind => kind = .rightParen)
        [] (item :: rest) := by
    intro item rest r r' hr _ h
    have hcomma : r = item.1.1 :: item.2.1 ::
        (rest.flatMap (fun (comma, name) => [comma.1, name.1]) ++ r') := h
    rw [hcomma] at hr
    cases item.1.2.symm.trans hr.head
  induction rest generalizing rest' with
  | nil =>
    cases rest' with
    | nil => exact fun _ _ _ _ h => ⟨rfl, h⟩
    | cons item rest' => exact hnil item rest'
  | cons item rest ih =>
    cases rest' with
    | nil => exact (hnil item rest).symm
    | cons item' rest' =>
      obtain ⟨comma, name⟩ := item
      obtain ⟨comma', name'⟩ := item'
      intro r r' hr hr' h
      obtain ⟨rfl, hname⟩ := Word.eq_of_cons h
      obtain ⟨rfl, hrest⟩ := Word.eq_of_cons hname
      obtain ⟨rfl, rfl⟩ := ih rest' hr hr' hrest
      exact ⟨rfl, rfl⟩

theorem Parameters.agree (d d' : Parameters) :
    Agree Parameters.yield (fun kind => kind = .rightParen) d d' := by
  cases d with
  | none =>
    cases d' with
    | none => exact fun _ _ _ _ h => ⟨rfl, h⟩
    | some first rest =>
      intro r r' hr _ h
      exact ((StartsIn.of_word first).ne_of_before hr (by simp) h.symm).elim
  | some first rest =>
    cases d' with
    | none =>
      intro r r' _ hr' h
      exact ((StartsIn.of_word first).ne_of_before hr' (by simp) h).elim
    | some first' rest' =>
      intro r r' hr hr' h
      obtain ⟨rfl, hrest⟩ := Word.eq_of_cons h
      obtain ⟨rfl, rfl⟩ := agree_rest rest rest' hr hr' hrest
      exact ⟨rfl, rfl⟩

/-- A statement goes on with an `else` as long as it ends with an open conditional. -/
def Statement.Follow (d : Statement) (r : List Token) : Prop :=
  d.isOpen = true → Before (fun kind => kind ≠ .kwElse) r

/-- Statements that start at the same place are the same, and end at the same place. -/
def Statement.Agree (d d' : Statement) : Prop :=
  ∀ ⦃r r' : List Token⦄, d.Follow r → d'.Follow r' → d.yield ++ r = d'.yield ++ r' →
    d = d' ∧ r = r'

theorem Statement.Agree.symm {d d' : Statement} (h : d.Agree d') : d'.Agree d := by
  intro r r' hr hr' heq
  obtain ⟨rfl, rfl⟩ := h hr' hr heq.symm
  exact ⟨rfl, rfl⟩

theorem Statement.agree_of_kinds {d d' : Statement} (h : ∀ kind ∈ d.kinds, kind ∉ d'.kinds) :
    d.Agree d' :=
  fun r r' _ _ heq => ((d.starts_kinds.append r).ne (d'.starts_kinds.append r') h heq).elim

/-- A statement does not start with an `else`, and neither does the end of a block. -/
theorem Statements.follow (first : Statement) (rest : Statements)
    (hr : Before (fun kind => kind = .rightBrace) r) : first.Follow (rest.yield ++ r) := by
  intro _
  cases rest with
  | none => exact hr.mono fun kind hkind => by rw [hkind]; simp
  | more next rest =>
    refine ((next.starts.append rest.yield).append r).before fun kind hkind => ?_
    rintro rfl
    simp [statementStarters, starters, primaryStarters] at hkind

theorem Word.before_ends_semicolon (w : Word .semicolon) : Before Ends (w.1 :: r) :=
  .of_cons (by rw [w.2]; exact ends_semicolon)

theorem Word.before_ends_rightParen (w : Word .rightParen) : Before Ends (w.1 :: r) :=
  .of_cons (by rw [w.2]; exact ends_rightParen)

/-- An expression with the semicolon behind it. -/
theorem Expression.agree_ended (d d' : Expression) {semicolon semicolon' : Word .semicolon}
    (h : d.yield ++ [semicolon.1] ++ r = d'.yield ++ [semicolon'.1] ++ r') :
    d = d' ∧ semicolon = semicolon' ∧ r = r' := by
  rw [List.append_assoc, List.append_assoc] at h
  obtain ⟨hd, hsemicolon⟩ := d.agree d' semicolon.before_ends_semicolon
    semicolon'.before_ends_semicolon h
  exact ⟨hd, Word.eq_of_cons hsemicolon⟩

/-- An expression with the parentheses around it. -/
theorem Expression.agree_condition (d d' : Expression) {left left' : Word .leftParen}
    {right right' : Word .rightParen}
    (h : left.1 :: (d.yield ++ right.1 :: r) = left'.1 :: (d'.yield ++ right'.1 :: r')) :
    left = left' ∧ d = d' ∧ right = right' ∧ r = r' := by
  obtain ⟨hleft, hrest⟩ := Word.eq_of_cons h
  obtain ⟨hd, hright⟩ := d.agree d' right.before_ends_rightParen right'.before_ends_rightParen hrest
  exact ⟨hleft, hd, Word.eq_of_cons hright⟩

theorem Statements.agree_none_more (first : Statement) (rest : Statements) :
    Agree Statements.yield (fun kind => kind = .rightBrace) .none (.more first rest) := by
  intro r r' hr _ h
  have hstarts : StartsIn statementStarters ((Statements.more first rest).yield ++ r') :=
    (first.starts.append _).append _
  refine (hstarts.ne_of_before hr ?_ h.symm).elim
  simp [statementStarters, starters, primaryStarters]

/-- A return statement has a value or ends at once. -/
theorem Statement.agree_return_returning (keyword keyword' : Word .kwReturn)
    (semicolon semicolon' : Word .semicolon) (value : Expression) :
    Statement.Agree (.return keyword semicolon) (.returning keyword' value semicolon') := by
  intro r r' _ _ h
  obtain ⟨-, hrest⟩ := List.cons.inj h
  have hsemicolon : StartsIn [.semicolon] (semicolon.1 :: r) := .of_word semicolon
  have hvalue : StartsIn starters (value.yield ++ [semicolon'.1] ++ r') :=
    (value.starts.append _).append _
  exact (hsemicolon.ne hvalue (by simp [starters, primaryStarters]) hrest).elim

theorem Statement.agree_variable_initialized (keyword keyword' : Word .kwVar)
    (name name' : Word .identifier) (semicolon semicolon' : Word .semicolon)
    (equals : Word .equal) (initializer : Expression) :
    Statement.Agree (.variable keyword name semicolon)
      (.initialized keyword' name' equals initializer semicolon') := by
  intro r r' _ _ h
  obtain ⟨-, hname⟩ := List.cons.inj h
  obtain ⟨-, hrest⟩ := List.cons.inj hname
  obtain ⟨hword, -⟩ := List.cons.inj hrest
  have hkind := semicolon.2
  rw [hword, equals.2] at hkind
  cases hkind

theorem Statement.follow_of_closed {d : Statement} (hopen : d.isOpen = false) : d.Follow r := by
  intro hisOpen
  rw [hopen] at hisOpen
  cases hisOpen

/-- A conditional that an `else` may not follow is not one that an `else` follows. -/
theorem Statement.agree_conditional_alternative {keyword keyword' : Word .kwIf}
    {left left' : Word .leftParen} {condition condition' : Expression}
    {right right' : Word .rightParen} {yes yes' : Statement} {otherwise : Word .kwElse}
    {no : Statement} (hopen : yes'.isOpen = false) (hyes : yes.Agree yes') :
    Statement.Agree (.conditional keyword left condition right yes)
      (.alternative keyword' left' condition' right' yes' otherwise no) := by
  intro r r' hr _ h
  simp only [Statement.yield, List.cons_append, List.append_assoc] at h
  obtain ⟨-, hcondition⟩ := Word.eq_of_cons h
  obtain ⟨-, -, -, hrest⟩ := condition.agree_condition condition' hcondition
  obtain ⟨-, helse⟩ := hyes (fun _ => hr rfl) (follow_of_closed hopen) hrest
  exact absurd otherwise.2 ((helse ▸ hr rfl : Before _ (otherwise.1 :: _)).head)

/-! Statements of the same form are the same if their parts are. -/

theorem Statement.agree_variable {keyword keyword' : Word .kwVar} {name name' : Word .identifier}
    {semicolon semicolon' : Word .semicolon} :
    Statement.Agree (.variable keyword name semicolon) (.variable keyword' name' semicolon') := by
  intro r r' _ _ h
  obtain ⟨rfl, hname⟩ := Word.eq_of_cons h
  obtain ⟨rfl, hsemicolon⟩ := Word.eq_of_cons hname
  obtain ⟨rfl, rfl⟩ := Word.eq_of_cons hsemicolon
  exact ⟨rfl, rfl⟩

theorem Statement.agree_initialized {keyword keyword' : Word .kwVar} {name name' : Word .identifier}
    {equals equals' : Word .equal} {initializer initializer' : Expression}
    {semicolon semicolon' : Word .semicolon} :
    Statement.Agree (.initialized keyword name equals initializer semicolon)
      (.initialized keyword' name' equals' initializer' semicolon') := by
  intro r r' _ _ h
  obtain ⟨rfl, hname⟩ := Word.eq_of_cons h
  obtain ⟨rfl, hequals⟩ := Word.eq_of_cons hname
  obtain ⟨rfl, hinitializer⟩ := Word.eq_of_cons hequals
  obtain ⟨rfl, rfl, rfl⟩ := initializer.agree_ended initializer' hinitializer
  exact ⟨rfl, rfl⟩

/-- The bodies of functions and blocks end with the brace behind them. -/
theorem Statements.agree_braced {body body' : Statements}
    (hbody : Agree Statements.yield (fun kind => kind = .rightBrace) body body')
    {stop stop' : Word .rightBrace}
    (h : body.yield ++ stop.1 :: r = body'.yield ++ stop'.1 :: r') :
    body = body' ∧ stop = stop' ∧ r = r' := by
  obtain ⟨hsame, hstop⟩ := hbody (.of_cons stop.2) (.of_cons stop'.2) h
  exact ⟨hsame, Word.eq_of_cons hstop⟩

theorem Statement.agree_function {keyword keyword' : Word .kwFun} {name name' : Word .identifier}
    {left left' : Word .leftParen} {parameters parameters' : Parameters}
    {right right' : Word .rightParen} {start start' : Word .leftBrace} {body body' : Statements}
    {stop stop' : Word .rightBrace}
    (hbody : Grammar.Agree Statements.yield (fun kind => kind = .rightBrace) body body') :
    Statement.Agree (.function keyword name left parameters right start body stop)
      (.function keyword' name' left' parameters' right' start' body' stop') := by
  intro r r' _ _ h
  obtain ⟨rfl, hname⟩ := Word.eq_of_cons h
  obtain ⟨rfl, hleft⟩ := Word.eq_of_cons hname
  obtain ⟨rfl, hparameters⟩ := Word.eq_of_cons hleft
  simp only [List.append_eq, List.append_assoc, List.cons_append] at hparameters
  obtain ⟨rfl, hright⟩ := parameters.agree parameters' (.of_cons right.2) (.of_cons right'.2)
    hparameters
  obtain ⟨rfl, hstart⟩ := Word.eq_of_cons hright
  obtain ⟨rfl, hbraced⟩ := Word.eq_of_cons hstart
  obtain ⟨rfl, rfl, rfl⟩ := Statements.agree_braced hbody hbraced
  exact ⟨rfl, rfl⟩

theorem Statement.agree_block {start start' : Word .leftBrace} {body body' : Statements}
    {stop stop' : Word .rightBrace}
    (hbody : Grammar.Agree Statements.yield (fun kind => kind = .rightBrace) body body') :
    Statement.Agree (.block start body stop) (.block start' body' stop') := by
  intro r r' _ _ h
  simp only [Statement.yield, List.cons_append, List.append_assoc] at h
  obtain ⟨rfl, hbraced⟩ := Word.eq_of_cons h
  obtain ⟨rfl, rfl, rfl⟩ := Statements.agree_braced hbody hbraced
  exact ⟨rfl, rfl⟩

theorem Statement.agree_conditional {keyword keyword' : Word .kwIf} {left left' : Word .leftParen}
    {condition condition' : Expression} {right right' : Word .rightParen} {yes yes' : Statement}
    (hyes : yes.Agree yes') :
    Statement.Agree (.conditional keyword left condition right yes)
      (.conditional keyword' left' condition' right' yes') := by
  intro r r' hr hr' h
  simp only [Statement.yield, List.cons_append, List.append_assoc] at h
  obtain ⟨rfl, hcondition⟩ := Word.eq_of_cons h
  obtain ⟨rfl, rfl, rfl, hrest⟩ := condition.agree_condition condition' hcondition
  obtain ⟨rfl, rfl⟩ := hyes (fun _ => hr rfl) (fun _ => hr' rfl) hrest
  exact ⟨rfl, rfl⟩

theorem Statement.agree_alternative {keyword keyword' : Word .kwIf} {left left' : Word .leftParen}
    {condition condition' : Expression} {right right' : Word .rightParen} {yes yes' no no' : Statement}
    {otherwise otherwise' : Word .kwElse} (hopen : yes.isOpen = false) (hopen' : yes'.isOpen = false)
    (hyes : yes.Agree yes') (hno : no.Agree no') :
    Statement.Agree (.alternative keyword left condition right yes otherwise no)
      (.alternative keyword' left' condition' right' yes' otherwise' no') := by
  intro r r' hr hr' h
  simp only [Statement.yield, List.cons_append, List.append_assoc] at h
  obtain ⟨rfl, hcondition⟩ := Word.eq_of_cons h
  obtain ⟨rfl, rfl, rfl, hrest⟩ := condition.agree_condition condition' hcondition
  obtain ⟨rfl, helse⟩ := hyes (follow_of_closed hopen) (follow_of_closed hopen') hrest
  obtain ⟨rfl, hbranch⟩ := Word.eq_of_cons helse
  obtain ⟨rfl, rfl⟩ := hno hr hr' hbranch
  exact ⟨rfl, rfl⟩

theorem Statement.agree_loop {keyword keyword' : Word .kwWhile} {left left' : Word .leftParen}
    {condition condition' : Expression} {right right' : Word .rightParen} {body body' : Statement}
    (hbody : body.Agree body') :
    Statement.Agree (.loop keyword left condition right body)
      (.loop keyword' left' condition' right' body') := by
  intro r r' hr hr' h
  simp only [Statement.yield, List.cons_append, List.append_assoc] at h
  obtain ⟨rfl, hcondition⟩ := Word.eq_of_cons h
  obtain ⟨rfl, rfl, rfl, hrest⟩ := condition.agree_condition condition' hcondition
  obtain ⟨rfl, rfl⟩ := hbody hr hr' hrest
  exact ⟨rfl, rfl⟩

mutual

theorem Statement.agree (d d' : Statement) (hnear : d.Near) (hnear' : d'.Near) : d.Agree d' := by
  cases d with
  | endOfInput token =>
    cases d' with
    | endOfInput token' =>
      intro r r' _ _ h
      obtain ⟨rfl, rfl⟩ := Word.eq_of_cons h
      exact ⟨rfl, rfl⟩
    | _ => exact Statement.agree_of_kinds (by simp [Statement.kinds, starters, primaryStarters])
  | «variable» keyword name semicolon =>
    cases d' with
    | «variable» => exact Statement.agree_variable
    | initialized => exact Statement.agree_variable_initialized _ _ _ _ _ _ _ _
    | _ => exact Statement.agree_of_kinds (by simp [Statement.kinds, starters, primaryStarters])
  | initialized keyword name equals initializer semicolon =>
    cases d' with
    | initialized => exact Statement.agree_initialized
    | «variable» => exact (Statement.agree_variable_initialized _ _ _ _ _ _ _ _).symm
    | _ => exact Statement.agree_of_kinds (by simp [Statement.kinds, starters, primaryStarters])
  | function keyword name left parameters right start body stop =>
    cases d' with
    | function _ _ _ _ _ _ body' _ =>
      exact Statement.agree_function (body.agree body' hnear hnear')
    | _ => exact Statement.agree_of_kinds (by simp [Statement.kinds, starters, primaryStarters])
  | block start body stop =>
    cases d' with
    | block _ body' _ => exact Statement.agree_block (body.agree body' hnear hnear')
    | _ => exact Statement.agree_of_kinds (by simp [Statement.kinds, starters, primaryStarters])
  | conditional keyword left condition right yes =>
    cases d' with
    | conditional _ _ _ _ yes' => exact Statement.agree_conditional (yes.agree yes' hnear hnear')
    | alternative _ _ _ _ yes' _ no' =>
      obtain ⟨hnearYes', hopen, -⟩ := hnear'
      exact Statement.agree_conditional_alternative hopen (yes.agree yes' hnear hnearYes')
    | _ => exact Statement.agree_of_kinds (by simp [Statement.kinds, starters, primaryStarters])
  | alternative keyword left condition right yes otherwise no =>
    obtain ⟨hnearYes, hopen, hnearNo⟩ := hnear
    cases d' with
    | conditional _ _ _ _ yes' =>
      exact (Statement.agree_conditional_alternative hopen
        (yes.agree yes' hnearYes hnear').symm).symm
    | alternative _ _ _ _ yes' _ no' =>
      obtain ⟨hnearYes', hopen', hnearNo'⟩ := hnear'
      exact Statement.agree_alternative hopen hopen' (yes.agree yes' hnearYes hnearYes')
        (no.agree no' hnearNo hnearNo')
    | _ => exact Statement.agree_of_kinds (by simp [Statement.kinds, starters, primaryStarters])
  | loop keyword left condition right body =>
    cases d' with
    | loop _ _ _ _ body' => exact Statement.agree_loop (body.agree body' hnear hnear')
    | _ => exact Statement.agree_of_kinds (by simp [Statement.kinds, starters, primaryStarters])
  | print keyword value semicolon =>
    cases d' with
    | print keyword' value' semicolon' =>
      intro r r' _ _ h
      obtain ⟨rfl, hvalue⟩ := Word.eq_of_cons h
      obtain ⟨rfl, rfl, rfl⟩ := value.agree_ended value' hvalue
      exact ⟨rfl, rfl⟩
    | _ => exact Statement.agree_of_kinds (by simp [Statement.kinds, starters, primaryStarters])
  | assert keyword condition semicolon =>
    cases d' with
    | assert keyword' condition' semicolon' =>
      intro r r' _ _ h
      obtain ⟨rfl, hcondition⟩ := Word.eq_of_cons h
      obtain ⟨rfl, rfl, rfl⟩ := condition.agree_ended condition' hcondition
      exact ⟨rfl, rfl⟩
    | _ => exact Statement.agree_of_kinds (by simp [Statement.kinds, starters, primaryStarters])
  | «return» keyword semicolon =>
    cases d' with
    | «return» keyword' semicolon' =>
      intro r r' _ _ h
      obtain ⟨rfl, hsemicolon⟩ := Word.eq_of_cons h
      obtain ⟨rfl, rfl⟩ := Word.eq_of_cons hsemicolon
      exact ⟨rfl, rfl⟩
    | returning => exact Statement.agree_return_returning _ _ _ _ _
    | _ => exact Statement.agree_of_kinds (by simp [Statement.kinds, starters, primaryStarters])
  | returning keyword value semicolon =>
    cases d' with
    | returning keyword' value' semicolon' =>
      intro r r' _ _ h
      obtain ⟨rfl, hvalue⟩ := Word.eq_of_cons h
      obtain ⟨rfl, rfl, rfl⟩ := value.agree_ended value' hvalue
      exact ⟨rfl, rfl⟩
    | «return» => exact (Statement.agree_return_returning _ _ _ _ _).symm
    | _ => exact Statement.agree_of_kinds (by simp [Statement.kinds, starters, primaryStarters])
  | expression value semicolon =>
    cases d' with
    | expression value' semicolon' =>
      intro r r' _ _ h
      obtain ⟨rfl, rfl, rfl⟩ := value.agree_ended value' h
      exact ⟨rfl, rfl⟩
    | _ => exact Statement.agree_of_kinds (by simp [Statement.kinds, starters, primaryStarters])
termination_by structural d

theorem Statements.agree (d d' : Statements) (hnear : d.Near) (hnear' : d'.Near) :
    Agree Statements.yield (fun kind => kind = .rightBrace) d d' := by
  cases d with
  | none =>
    cases d' with
    | none => exact fun _ _ _ _ h => ⟨rfl, h⟩
    | more first rest => exact Statements.agree_none_more first rest
  | more first rest =>
    cases d' with
    | none => exact (Statements.agree_none_more first rest).symm
    | more first' rest' =>
      intro r r' hr hr' h
      simp only [Statements.yield, List.append_assoc] at h
      obtain ⟨rfl, hrest⟩ := first.agree first' hnear.1 hnear'.1
        (Statements.follow first rest hr) (Statements.follow first' rest' hr') h
      obtain ⟨rfl, rfl⟩ := rest.agree rest' hnear.2 hnear'.2 hr hr' hrest
      exact ⟨rfl, rfl⟩
termination_by structural d

end

/-- There is one way to derive a text. -/
theorem Statements.eq_of_yield_eq {d d' : Statements} (hnear : d.Near) (hnear' : d'.Near)
    (h : d.yield = d'.yield) : d = d' := by
  have hnil : Before (fun kind => kind = .rightBrace) [] := fun _ ht => by cases ht
  exact (d.agree d' hnear hnear' hnil hnil (by rw [h])).1

end Statements

end Lox.Grammar
