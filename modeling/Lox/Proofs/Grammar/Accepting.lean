import Lox.Proofs.Grammar.Follow
import Lox.Proofs.Grammar.Nesting

/-!
# What has a derivation is read

A reader that stands before the tokens of a derivation takes them and gives the tree of the
derivation, unless the nesting is too deep. For this the token behind the derivation must not carry
it on, since a reader always takes as much as it can.
-/
namespace Lox.Grammar
open Outcome Lox.Parser
variable {s s' u : TokenStream}

namespace Takes
variable {t : Token} {ts : List Token}

theorem uncons (h : Takes s (t :: ts) s') : s.head = .ok t ∧ Takes s.tail ts s' := by
  cases h with
  | cons hhead rest => exact ⟨hhead, rest⟩

theorem eq_of_nil (h : Takes s [] s') : s = s' := by
  cases h
  rfl

theorem next (h : Takes s ts s') {kinds : List Kind} (hstarts : StartsIn kinds ts) :
    Next (fun kind => kind ∈ kinds) s := by
  obtain ⟨t, rest, rfl, hkind⟩ := hstarts
  exact ⟨t, h.uncons.1, hkind⟩

theorem next_word {kind : Kind} {w : Word kind} (h : Takes s (w.1 :: ts) s') {P : Kind → Prop}
    (hP : P kind) : Next P s :=
  ⟨w.1, h.uncons.1, by rwa [w.2]⟩

theorem remaining_le (h : Takes s ts s') : s'.remaining ≤ s.remaining := by
  induction h with
  | nil s => exact Nat.le_refl _
  | @cons s _ _ _ _ _ ih =>
    have := s.remaining_tail
    omega

end Takes

/-- A token that is not the end of the input is one of those that remain. -/
theorem remaining_tail_lt {t : Token} (h : s.head = .ok t) (hkind : t.kind ≠ .eof) :
    s.tail.remaining < s.remaining := by
  obtain ⟨pending, lastLine⟩ := s
  cases pending with
  | nil =>
    cases h
    exact absurd rfl hkind
  | cons outcome pending => exact Nat.lt_succ_self _

section Steps
variable {α : Type} {f : Prop} {kinds : List Kind} {k : Bool → Parser α} {a : α}

theorem Reads.check_of_mem (h : Next (fun kind => kind ∈ kinds) s)
    (hk : Reads f (k true) s a s') : Reads f (check kinds >>= k) s a s' := by
  obtain ⟨t, hhead, hkind⟩ := h
  exact .after (check_eq_ok.mpr ⟨t, hhead, by simpa using hkind, rfl⟩) hk

theorem Reads.check_of_not_mem (h : Next (fun kind => kind ∉ kinds) s)
    (hk : Reads f (k false) s a s') : Reads f (check kinds >>= k) s a s' := by
  obtain ⟨t, hhead, hkind⟩ := h
  exact .after (check_eq_ok.mpr ⟨t, hhead, by simpa using hkind, rfl⟩) hk

end Steps

/-- A reader reads the derivations that fit, when what follows does not carry them on. -/
def Complete {α δ : Type} (p : Parser α) (fits : δ → Prop) (follow : Kind → Prop)
    (yield : δ → List Token) (tree : δ → α) : Prop :=
  ∀ ⦃d : δ⦄ ⦃s s' : TokenStream⦄, Takes s (yield d) s' → Next follow s' →
    Reads (fits d) p s (tree d) s'

section Expressions
variable {depth : Nat}

/-- Behind an operand there is an operator, or what ends the operators of the level. -/
theorem Operands.next {level : Level} {tighter : List Level} (rest : Operands level tighter)
    (hordered : Ordered (level :: tighter)) (h : Takes s rest.yield s')
    (hnext : Next (Closes (level :: tighter)) s') : Next (Closes tighter) s := by
  cases rest with
  | none =>
    cases h.eq_of_nil
    exact hnext.mono fun _ => Closes.tail
  | more operator operand rest => exact ⟨operator.1, h.uncons.1, (hordered.1 _ operator.2).2⟩

theorem operands_complete {level : Level} {tighter : List Level} {operand : Parser (Expr Unit)}
    (hoperand : Complete operand (fun d : Operation tighter => d.Fits depth) (Closes tighter)
      (fun d => d.yield) (fun d => d.tree))
    (hordered : Ordered (level :: tighter)) {fuel : Nat} {left : Expr Unit}
    (rest : Operands level tighter) (hfuel : s.remaining ≤ fuel) (h : Takes s rest.yield s')
    (hnext : Next (Closes (level :: tighter)) s') :
    Reads (rest.Fits depth) (repeatUpTo (fun left => do
      if ← check level.kinds then
        let operator ← pop
        return some (level.node left operator (← operand))
      else return none) fuel left) s (rest.tree left) s' := by
  induction fuel generalizing s left rest with
  | zero =>
    cases rest with
    | none =>
      cases h.eq_of_nil
      exact .of_ok rfl
    | more operator operand rest =>
      have := remaining_tail_lt h.uncons.1 (hordered.1 _ operator.2).1
      omega
  | succ fuel ih =>
    cases rest with
    | none =>
      cases h.eq_of_nil
      obtain ⟨t, hhead, hkind⟩ := hnext
      have hcheck : check level.kinds s' = .ok false s' :=
        check_eq_ok.mpr ⟨t, hhead, by simpa using hkind.2 _ List.mem_cons_self, rfl⟩
      exact .rounds_end (bind_of_ok hcheck _) _
    | more operator operand rest =>
      obtain ⟨hhead, hrest⟩ := h.uncons
      obtain ⟨t, hoperandTakes, hrestTakes⟩ := hrest.of_append
      have hlt := remaining_tail_lt hhead (hordered.1 _ operator.2).1
      have hle := hoperandTakes.remaining_le
      refine .round (t := t) ?_ (ih rest (by omega) hrestTakes)
      refine .check_of_mem ⟨operator.1, hhead, operator.2⟩ ?_
      refine .after (pop_eq_ok.mpr ⟨hhead, rfl⟩) ?_
      exact .ended (hoperand hoperandTakes (rest.next hordered hrestTakes hnext)) rfl

theorem climb_complete {operand : Parser (Expr Unit)}
    (hoperand : Complete operand (fun d : Unary => d.Fits depth) (Closes []) Unary.yield Unary.tree)
    {tighter : List Level} (hordered : Ordered tighter) :
    Complete (climb operand tighter) (fun d : Operation tighter => d.Fits depth) (Closes tighter)
      (fun d => d.yield) (fun d => d.tree) := by
  induction tighter with
  | nil =>
    intro d s s' h hnext
    cases d with
    | unary operand => exact hoperand h hnext
  | cons level tighter ih =>
    intro d s s' h hnext
    cases d with
    | chain first rest =>
      obtain ⟨t, hfirst, hrest⟩ := Takes.of_append h
      have hnext' := rest.next hordered hrest hnext
      refine .bind (ih hordered.2 hfirst hnext') ?_
      exact operands_complete (ih hordered.2) hordered rest (Nat.le_refl _) hrest hnext

/-- Items with commas between them, behind the first one; they come last first. -/
theorem items_complete {α δ : Type} {item : Parser α} {fits : δ → Prop} {follow : Kind → Prop}
    {yield : δ → List Token} {tree : δ → α} (hitem : Complete item fits follow yield tree)
    (hcomma : follow .comma) {fuel : Nat} {items : List α} (rest : List (Word .comma × δ))
    (hfuel : s.remaining ≤ fuel)
    (h : Takes s (rest.flatMap fun (comma, d) => comma.1 :: yield d) s')
    (hnext : Next (fun kind => kind ≠ .comma ∧ follow kind) s') :
    Reads (∀ pair ∈ rest, fits pair.2) (repeatUpTo (fun items => do
      if ← check [.comma] then
        let _ ← pop
        return some ((← item) :: items)
      else return none) fuel items) s ((rest.map fun (_, d) => tree d).reverse ++ items) s' := by
  induction rest generalizing s fuel items with
  | nil =>
    cases h.eq_of_nil
    obtain ⟨t, hhead, hkind⟩ := hnext
    have hcheck : check [.comma] s' = .ok false s' :=
      check_eq_ok.mpr ⟨t, hhead, by simpa using hkind.1, rfl⟩
    exact (Reads.rounds_end (bind_of_ok hcheck _) _).congr (by simp)
  | cons pair rest ih =>
    obtain ⟨comma, d⟩ := pair
    obtain ⟨hhead, htail⟩ := h.uncons
    obtain ⟨t, hd, hrest⟩ := htail.of_append
    have hlt := remaining_tail_lt hhead (by rw [comma.2]; simp)
    have hle := hd.remaining_le
    cases fuel with
    | zero => omega
    | succ fuel =>
      have hfollow : Next follow t := by
        cases rest with
        | nil =>
          cases hrest.eq_of_nil
          exact hnext.mono fun _ hkind => hkind.2
        | cons pair rest => exact hrest.next_word hcomma
      rw [List.map_cons, List.reverse_cons, List.append_assoc]
      refine (Reads.round (t := t) ?_ (ih (by omega) hrest)).congr List.forall_mem_cons.symm
      refine .check_of_mem ⟨comma.1, hhead, by simp [comma.2]⟩ ?_
      exact .after (pop_eq_ok.mpr ⟨hhead, rfl⟩) (.ended (hitem hd hfollow) rfl)

theorem separated_complete {α δ : Type} {item : Parser α} {fits : δ → Prop} {follow : Kind → Prop}
    {yield : δ → List Token} {tree : δ → α} (hitem : Complete item fits follow yield tree)
    (hcomma : follow .comma) {first : δ} {rest : List (Word .comma × δ)}
    (h : Takes s (yield first ++ rest.flatMap fun (comma, d) => comma.1 :: yield d) s')
    (hnext : Next (fun kind => kind ≠ .comma ∧ follow kind) s') :
    Reads (fits first ∧ ∀ pair ∈ rest, fits pair.2) (separated item) s
      (tree first :: rest.map fun (_, d) => tree d) s' := by
  obtain ⟨t, hfirst, hrest⟩ := h.of_append
  have hfollow : Next follow t := by
    cases rest with
    | nil =>
      cases hrest.eq_of_nil
      exact hnext.mono fun _ hkind => hkind.2
    | cons pair rest => exact hrest.next_word hcomma
  have hitems : Reads (∀ pair ∈ rest, fits pair.2) (repeatWhile _ [tree first]) t _ s' :=
    items_complete hitem hcomma rest (Nat.le_refl _) hrest hnext
  exact .bind (hitem hfirst hfollow) (.ended hitems (by simp))

theorem MoreArguments.exists_ofList : ∀ (rest : MoreArguments), ∃ items,
    MoreArguments.ofList items = rest
  | .none => ⟨[], rfl⟩
  | .more comma argument rest => by
    obtain ⟨items, rfl⟩ := rest.exists_ofList
    exact ⟨(comma, argument) :: items, rfl⟩

theorem MoreArguments.fits_ofList {items : List (Word .comma × Expression)} :
    (MoreArguments.ofList items).Fits depth ↔ ∀ pair ∈ items, pair.2.Fits depth := by
  induction items with
  | nil => simp [MoreArguments.ofList, MoreArguments.Fits]
  | cons pair items ih => simp [MoreArguments.ofList, MoreArguments.Fits, ih]

/-- Expressions of a depth are read. -/
def Expression.Complete (depth : Nat) (p : Parser (Expr Unit)) : Prop :=
  Grammar.Complete p (fun d : Expression => d.Fits depth) Ends Expression.yield Expression.tree

section Parts
variable {inner : Parser (Expr Unit)}

theorem arguments_complete (hinner : Expression.Complete depth inner) :
    Complete (list inner) (fun d : Arguments => d.Fits depth) (fun kind => kind = .rightParen)
      Arguments.yield Arguments.trees := by
  intro d s s' h hnext
  cases d with
  | none =>
    cases h.eq_of_nil
    exact .check_of_mem (hnext.mono fun _ hkind => by simp [hkind]) (.of_ok rfl)
  | some first rest =>
    obtain ⟨items, rfl⟩ := rest.exists_ofList
    rw [Arguments.yield, MoreArguments.yield_ofList] at h
    have hstarts := h.next (first.starts.append _)
    refine .check_of_not_mem (hstarts.mono fun kind hkind => ?_) ?_
    · simp only [List.mem_singleton]
      rintro rfl
      simp [starters, primaryStarters] at hkind
    · have hends : Next (fun kind => kind ≠ .comma ∧ Ends kind) s' :=
        hnext.mono fun kind hkind => by
          rw [hkind]
          exact ⟨by simp, ends_rightParen⟩
      rw [Arguments.trees, MoreArguments.trees_ofList]
      refine (separated_complete hinner ends_comma h hends).congr ?_
      simp only [Arguments.Fits, MoreArguments.fits_ofList]

/-- A token that has to stand at a place does. -/
theorem expect_of_takes {expectation : Expectation} {w : Word expectation.kind} {ts : List Token}
    (h : Takes s (w.1 :: ts) s') : expect expectation s = .ok w.1 s.tail :=
  expect_eq_ok.mpr ⟨h.uncons.1, w.2, rfl⟩

theorem primary_complete (hinner : Expression.Complete depth inner) {d : Primary}
    (h : Takes s d.yield s') : Reads (d.Fits depth) (primary inner) s d.tree s' := by
  have hword : ∀ {t : Token}, d.yield = [t] → s.head = .ok t ∧ s' = s.tail := by
    intro t hyield
    rw [hyield] at h
    obtain ⟨hhead, hnil⟩ := h.uncons
    exact ⟨hhead, hnil.eq_of_nil.symm⟩
  cases d with
  | literal token =>
    obtain ⟨hhead, rfl⟩ := hword rfl
    refine .after (peek_eq_ok.mpr ⟨hhead, rfl⟩) ?_
    rcases List.mem_cons.mp token.2 with hkind | hkind
    · rw [hkind]
      exact .after (pop_eq_ok.mpr ⟨hhead, rfl⟩) (.of_ok rfl)
    · rw [List.mem_singleton.mp hkind]
      exact .after (pop_eq_ok.mpr ⟨hhead, rfl⟩) (.of_ok rfl)
  | true token =>
    obtain ⟨hhead, rfl⟩ := hword rfl
    refine .after (peek_eq_ok.mpr ⟨hhead, rfl⟩) ?_
    rw [token.2]
    exact .after (pop_eq_ok.mpr ⟨hhead, rfl⟩) (.of_ok rfl)
  | false token =>
    obtain ⟨hhead, rfl⟩ := hword rfl
    refine .after (peek_eq_ok.mpr ⟨hhead, rfl⟩) ?_
    rw [token.2]
    exact .after (pop_eq_ok.mpr ⟨hhead, rfl⟩) (.of_ok rfl)
  | nil token =>
    obtain ⟨hhead, rfl⟩ := hword rfl
    refine .after (peek_eq_ok.mpr ⟨hhead, rfl⟩) ?_
    rw [token.2]
    exact .after (pop_eq_ok.mpr ⟨hhead, rfl⟩) (.of_ok rfl)
  | name token =>
    obtain ⟨hhead, rfl⟩ := hword rfl
    refine .after (peek_eq_ok.mpr ⟨hhead, rfl⟩) ?_
    rw [token.2]
    exact .after (pop_eq_ok.mpr ⟨hhead, rfl⟩) (.of_ok rfl)
  | group left inner right =>
    obtain ⟨hhead, hrest⟩ := h.uncons
    obtain ⟨t, hd, hright⟩ := hrest.of_append
    have hends : Next Ends t := hright.next_word ends_rightParen
    refine .after (peek_eq_ok.mpr ⟨hhead, rfl⟩) ?_
    rw [left.2]
    refine .after (pop_eq_ok.mpr ⟨hhead, rfl⟩) (.ended (hinner hd hends) ?_)
    have hexpect : expect .groupingEnd t = .ok right.1 t.tail := expect_of_takes hright
    rw [bind_of_ok hexpect, hright.uncons.2.eq_of_nil]
    rfl

theorem calls_complete (hinner : Expression.Complete depth inner) {fuel : Nat}
    {callee : Expr Unit} (calls : Calls) (hfuel : s.remaining ≤ fuel) (h : Takes s calls.yield s')
    (hnext : Next (Closes []) s') :
    Reads (calls.Fits depth) (repeatUpTo (fun callee => do
      if ← check [.leftParen] then
        let _ ← pop
        let arguments ← list inner
        return some (.call callee (← expect .argumentsEnd) arguments)
      else return none) fuel callee) s (calls.tree callee) s' := by
  induction fuel generalizing s callee calls with
  | zero =>
    cases calls with
    | none =>
      cases h.eq_of_nil
      exact .of_ok rfl
    | more left arguments right rest =>
      have := remaining_tail_lt h.uncons.1 (by rw [left.2]; simp)
      omega
  | succ fuel ih =>
    cases calls with
    | none =>
      cases h.eq_of_nil
      obtain ⟨t, hhead, hkind⟩ := hnext
      have hcheck : check [.leftParen] s' = .ok false s' :=
        check_eq_ok.mpr ⟨t, hhead, by simpa using hkind.1, rfl⟩
      exact .rounds_end (bind_of_ok hcheck _) _
    | more left arguments right rest =>
      obtain ⟨hhead, htail⟩ := h.uncons
      obtain ⟨t, harguments, hright⟩ := htail.of_append
      obtain ⟨-, hrest⟩ := hright.uncons
      have hlt := remaining_tail_lt hhead (by rw [left.2]; simp)
      have hle := harguments.remaining_le
      have hle' := t.remaining_tail
      refine .round (t := t.tail) ?_ (ih rest (by omega) hrest)
      refine .check_of_mem ⟨left.1, hhead, by simp [left.2]⟩ ?_
      refine .after (pop_eq_ok.mpr ⟨hhead, rfl⟩) ?_
      refine .ended (arguments_complete hinner harguments (hright.next_word rfl)) ?_
      exact bind_of_ok (expect_of_takes hright) _

theorem call_complete (hinner : Expression.Complete depth inner) {callee : Primary} {calls : Calls}
    (h : Takes s (Unary.call callee calls).yield s') (hnext : Next (Closes []) s') :
    Reads (callee.Fits depth ∧ calls.Fits depth) (call inner) s (Unary.call callee calls).tree
      s' := by
  obtain ⟨t, hcallee, hcalls⟩ := Takes.of_append h
  exact .bind (primary_complete hinner hcallee)
    (calls_complete hinner calls (Nat.le_refl _) hcalls hnext)

/-- A bare name as an operation. -/
def Operation.ofName (name : Word .identifier) : (tighter : List Level) → Operation tighter
  | [] => .unary (.call (.name name) .none)
  | _ :: tighter => .chain (ofName name tighter) .none

section Name
variable {name : Word .identifier}

theorem Operation.yield_ofName (tighter : List Level) : (ofName name tighter).yield = [name.1] := by
  induction tighter with
  | nil => rfl
  | cons level tighter ih => rw [ofName, Operation.yield, ih]; rfl

theorem Operation.tree_ofName (tighter : List Level) :
    (ofName name tighter).tree = .variable () name.1 := by
  induction tighter with
  | nil => rfl
  | cons level tighter ih => exact ih

theorem Operation.fits_ofName (tighter : List Level) :
    (ofName name tighter).Fits depth ↔ 8 ≤ depth := by
  induction tighter with
  | nil => simp [ofName, Operation.Fits, Unary.Fits, Primary.Fits, Calls.Fits]
  | cons level tighter ih => simp [ofName, Operation.Fits, Operands.Fits, ih]

end Name

end Parts

theorem unary_of_lt (h : depth < 8) : unary depth = tooDeep := by
  unfold unary
  split
  · omega
  · rfl

/-- Expressions, and unary expressions, of any depth. -/
theorem expression_unary_complete (depth : Nat) :
    Expression.Complete depth (expression depth) ∧
      Complete (unary depth) (fun d : Unary => d.Fits depth) (Closes []) Unary.yield
        Unary.tree := by
  induction depth using Nat.strongRecOn with
  | ind depth ih =>
    constructor
    · intro d s s' h hnext
      cases depth with
      | zero =>
        have hfits : ¬d.Fits 0 := by cases d <;> exact id
        exact .tooDeep hfits
      | succ depth =>
        obtain ⟨hexpression, hunary⟩ := ih depth (Nat.lt_succ_self depth)
        have hclimb := climb_complete hunary levels_ordered
        unfold expression
        cases d with
        | assignment name equals value =>
          obtain ⟨hhead, htail⟩ := h.uncons
          obtain ⟨hequals, hvalue⟩ := htail.uncons
          -- The name is read as operators of all levels that consist of the name alone.
          have hname : Takes s (Operation.ofName name levels).yield s.tail := by
            rw [Operation.yield_ofName]
            exact .single hhead
          have htarget : Reads (8 ≤ depth) (climb (unary depth) levels) s (.variable () name.1)
              s.tail := by
            rw [← Operation.tree_ofName levels]
            exact (hclimb hname (htail.next_word closes_levels_equal)).congr
              (Operation.fits_ofName levels)
          refine htarget.bind (.check_of_mem ⟨equals.1, hequals, by simp [equals.2]⟩ ?_)
          refine .after (pop_eq_ok.mpr ⟨hequals, rfl⟩) ?_
          exact .ended (hexpression hvalue hnext) rfl
        | operation operation =>
          refine .ended (hclimb h (hnext.mono fun _ hkind => hkind.2)) ?_
          obtain ⟨t, hhead, hkind⟩ := hnext
          have hcheck : check [.equal] s' = .ok false s' :=
            check_eq_ok.mpr ⟨t, hhead, by simpa using hkind.1, rfl⟩
          exact bind_of_ok hcheck _
    · intro d s s' h hnext
      rcases Nat.lt_or_ge depth 8 with hlt | hge
      · rw [unary_of_lt hlt]
        refine .tooDeep fun hfits => ?_
        cases d with
        | operator operator operand => exact absurd hfits.1 (Nat.not_le_of_lt hlt)
        | call callee calls => exact absurd hfits.1 (Nat.not_le_of_lt hlt)
      · obtain ⟨depth, rfl⟩ := Nat.exists_eq_add_of_le' hge
        unfold unary
        cases d with
        | operator operator operand =>
          obtain ⟨hhead, hoperand⟩ := h.uncons
          refine Reads.congr (f := operand.Fits (depth + 7)) ?_ (by simp [Unary.Fits])
          refine .check_of_mem ⟨operator.1, hhead, operator.2⟩ ?_
          refine .after (pop_eq_ok.mpr ⟨hhead, rfl⟩) ?_
          exact .ended ((ih (depth + 7) (by omega)).2 hoperand hnext) rfl
        | call callee calls =>
          have hstarts := Takes.next h (callee.starts.append _)
          have hprimary : ∀ kind ∈ primaryStarters, kind ∉ [Kind.bang, .minus] := by
            simp [primaryStarters]
          refine Reads.congr (f := callee.Fits depth ∧ calls.Fits depth) ?_ (by simp [Unary.Fits])
          exact .check_of_not_mem (hstarts.mono hprimary)
            (call_complete (ih depth (by omega)).1 h hnext)

theorem expression_complete (depth : Nat) : Expression.Complete depth (expression depth) :=
  (expression_unary_complete depth).1

end Expressions

end Lox.Grammar
