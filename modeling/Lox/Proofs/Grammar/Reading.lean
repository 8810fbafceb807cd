import Lox.Proofs.Grammar.Derivation
import Lox.Proofs.Outcome

/-!
# What the parser reads has a derivation

Every reader of the parser that succeeds has taken the tokens of a derivation from the stream, and
what it gives is the tree of the derivation. A statement that ends with an open conditional is not
followed by an `else`, since the conditional would have taken it.
-/
namespace Lox.Grammar
open Outcome Lox.Parser

/-- A stream delivers some tokens first, and then it is another stream. -/
inductive Takes : TokenStream → List Token → TokenStream → Prop where
  | nil (s : TokenStream) : Takes s [] s
  | cons {s s' : TokenStream} {t : Token} {ts : List Token} (h : s.head = .ok t)
      (rest : Takes s.tail ts s') : Takes s (t :: ts) s'

/-- What comes next is a token of a kind with some property. -/
def Next (P : Kind → Prop) (s : TokenStream) : Prop :=
  ∃ t, s.head = .ok t ∧ P t.kind

theorem Next.mono {P Q : Kind → Prop} {s : TokenStream} (h : Next P s)
    (himp : ∀ kind, P kind → Q kind) : Next Q s := by
  obtain ⟨t, hhead, ht⟩ := h
  exact ⟨t, hhead, himp _ ht⟩

namespace Takes
variable {s s' s'' : TokenStream} {t : Token} {ts us : List Token}

theorem append (h : Takes s ts s') (h' : Takes s' us s'') : Takes s (ts ++ us) s'' := by
  induction h with
  | nil s => exact h'
  | cons hhead _ ih => exact .cons hhead (ih h')

theorem single (h : s.head = .ok t) : Takes s [t] s.tail := .cons h (.nil _)

theorem concat (h : Takes s ts s') (h' : s'.head = .ok t) : Takes s (ts ++ [t]) s'.tail :=
  h.append (single h')

theorem of_append (h : Takes s (ts ++ us) s'') : ∃ s', Takes s ts s' ∧ Takes s' us s'' := by
  induction ts generalizing s with
  | nil => exact ⟨s, .nil s, h⟩
  | cons t ts ih =>
    cases h with
    | cons hhead rest =>
      obtain ⟨s', hts, hus⟩ := ih rest
      exact ⟨s', .cons hhead hts, hus⟩

end Takes

section Steps
variable {s s' : TokenStream} {t : Token}

theorem peek_eq_ok : peek s = .ok t s' ↔ s.head = .ok t ∧ s' = s := by
  unfold peek
  cases s.head with
  | ok token =>
    simp only [EStateM.Result.ok.injEq, Except.ok.injEq]
    exact and_congr_right fun _ => eq_comm
  | error error => simp

theorem pop_eq_ok : pop s = .ok t s' ↔ s.head = .ok t ∧ s' = s.tail := by
  unfold pop
  cases s.head with
  | ok token =>
    simp only [EStateM.Result.ok.injEq, Except.ok.injEq]
    exact and_congr_right fun _ => eq_comm
  | error error => simp

theorem check_eq_ok {kinds : List Kind} {b : Bool} :
    check kinds s = .ok b s' ↔ ∃ t, s.head = .ok t ∧ kinds.contains t.kind = b ∧ s' = s := by
  unfold check
  rw [bind_eq_ok]
  constructor
  · rintro ⟨t, u, ht, hb⟩
    obtain ⟨hhead, rfl⟩ := peek_eq_ok.mp ht
    cases hb
    exact ⟨t, hhead, rfl, rfl⟩
  · rintro ⟨t, hhead, rfl, rfl⟩
    exact ⟨t, s', peek_eq_ok.mpr ⟨hhead, rfl⟩, rfl⟩

theorem expect_eq_ok {expectation : Expectation} :
    expect expectation s = .ok t s' ↔
      s.head = .ok t ∧ t.kind = expectation.kind ∧ s' = s.tail := by
  unfold expect
  rw [bind_eq_ok]
  constructor
  · rintro ⟨token, u, ht, hb⟩
    obtain ⟨hhead, rfl⟩ := peek_eq_ok.mp ht
    split at hb
    · rename_i hkind
      obtain ⟨hpop, rfl⟩ := pop_eq_ok.mp hb
      rw [hhead] at hpop
      cases hpop
      exact ⟨hhead, hkind, rfl⟩
    · cases hb
  · rintro ⟨hhead, hkind, rfl⟩
    refine ⟨t, s, peek_eq_ok.mpr ⟨hhead, rfl⟩, ?_⟩
    rw [if_pos hkind]
    exact pop_eq_ok.mpr ⟨hhead, rfl⟩

end Steps

/-- A reader that succeeds has taken the tokens of a derivation and gives its tree. -/
def Sound {α δ : Type} (p : Parser α) (yield : δ → List Token) (tree : δ → α) : Prop :=
  ∀ {s a s'}, p s = .ok a s' → ∃ d, Takes s (yield d) s' ∧ tree d = a

/-- The same for operators of some levels. -/
def SoundOperation (p : Parser (Expr Unit)) (tighter : List Level) : Prop :=
  Sound p (fun d : Operation tighter => d.yield) fun d => d.tree

section Expressions
variable {s s' : TokenStream}

/-- Operators of one level between operands, behind the first operand. -/
theorem operands_sound {level : Level} {tighter : List Level} {operand : Parser (Expr Unit)}
    (hoperand : SoundOperation operand tighter) {fuel : Nat}
    {left e : Expr Unit}
    (h : repeatUpTo (fun left => do
      if ← check level.kinds then
        let operator ← pop
        return some (level.node left operator (← operand))
      else return none) fuel left s = .ok e s') :
    ∃ rest : Operands level tighter, Takes s rest.yield s' ∧ rest.tree left = e := by
  induction fuel generalizing left s with
  | zero =>
    cases h
    exact ⟨.none, .nil _, rfl⟩
  | succ fuel ih =>
    obtain ⟨next, t, hstep, hrest⟩ := bind_eq_ok.mp h
    obtain ⟨b, u, hcheck, hbody⟩ := bind_eq_ok.mp hstep
    obtain ⟨token, hhead, rfl, rfl⟩ := check_eq_ok.mp hcheck
    split at hbody
    · rename_i hkind
      obtain ⟨operator, v, hpop, hbody⟩ := bind_eq_ok.mp hbody
      obtain ⟨right, w, hright, hreturn⟩ := bind_eq_ok.mp hbody
      obtain ⟨hhead', rfl⟩ := pop_eq_ok.mp hpop
      rw [hhead] at hhead'
      cases hhead'
      cases hreturn
      obtain ⟨d, hd, rfl⟩ := hoperand hright
      obtain ⟨rest, htakes, htree⟩ := ih hrest
      have hmem : token.kind ∈ level.kinds := by simpa using hkind
      exact ⟨.more ⟨token, hmem⟩ d rest, .cons hhead (hd.append htakes), htree⟩
    · cases hbody
      cases hrest
      exact ⟨.none, .nil _, rfl⟩

theorem chain_sound {level : Level} {tighter : List Level} {operand : Parser (Expr Unit)}
    (hoperand : SoundOperation operand tighter) :
    SoundOperation (chain level operand) (level :: tighter) := by
  intro s e s' h
  obtain ⟨left, t, hfirst, hrest⟩ := bind_eq_ok.mp h
  obtain ⟨first, htakes, rfl⟩ := hoperand hfirst
  obtain ⟨rest, htakes', rfl⟩ := operands_sound hoperand hrest
  exact ⟨.chain first rest, htakes.append htakes', rfl⟩

/-- All levels of binary operators. -/
theorem climb_sound {operand : Parser (Expr Unit)} (hoperand : Sound operand Unary.yield Unary.tree)
    (tighter : List Level) :
    SoundOperation (climb operand tighter) tighter := by
  induction tighter with
  | nil =>
    intro s e s' h
    obtain ⟨d, htakes, rfl⟩ := hoperand h
    exact ⟨.unary d, htakes, rfl⟩
  | cons level tighter ih => exact chain_sound ih

/-- Items with commas between them, behind the first one; they come last first. -/
theorem items_sound {α δ : Type} {item : Parser α} {yield : δ → List Token} {tree : δ → α}
    (hitem : Sound item yield tree) {fuel : Nat} {items all : List α}
    (h : repeatUpTo (fun items => do
      if ← check [.comma] then
        let _ ← pop
        return some ((← item) :: items)
      else return none) fuel items s = .ok all s') :
    ∃ rest : List (Word .comma × δ),
      Takes s (rest.flatMap fun (comma, d) => comma.1 :: yield d) s' ∧
        all.reverse = items.reverse ++ rest.map fun (_, d) => tree d := by
  induction fuel generalizing items s with
  | zero =>
    cases h
    exact ⟨[], .nil _, by simp⟩
  | succ fuel ih =>
    obtain ⟨next, t, hstep, hrest⟩ := bind_eq_ok.mp h
    obtain ⟨b, u, hcheck, hbody⟩ := bind_eq_ok.mp hstep
    obtain ⟨token, hhead, rfl, rfl⟩ := check_eq_ok.mp hcheck
    split at hbody
    · rename_i hkind
      obtain ⟨comma, v, hpop, hbody⟩ := bind_eq_ok.mp hbody
      obtain ⟨a, w, ha, hreturn⟩ := bind_eq_ok.mp hbody
      obtain ⟨-, rfl⟩ := pop_eq_ok.mp hpop
      cases hreturn
      obtain ⟨d, hd, rfl⟩ := hitem ha
      obtain ⟨rest, htakes, htree⟩ := ih hrest
      have hcomma : token.kind = .comma := by simpa using hkind
      refine ⟨(⟨token, hcomma⟩, d) :: rest, ?_, by simp [htree]⟩
      exact .cons hhead (hd.append htakes)
    · cases hbody
      cases hrest
      exact ⟨[], .nil _, by simp⟩

theorem separated_sound {α δ : Type} {item : Parser α} {yield : δ → List Token} {tree : δ → α}
    (hitem : Sound item yield tree) {all : List α} (h : separated item s = .ok all s') :
    ∃ (first : δ) (rest : List (Word .comma × δ)),
      Takes s (yield first ++ rest.flatMap fun (comma, d) => comma.1 :: yield d) s' ∧
        all = tree first :: rest.map fun (_, d) => tree d := by
  obtain ⟨a, t, ha, hrest⟩ := bind_eq_ok.mp h
  obtain ⟨reversed, u, hreversed, hreturn⟩ := bind_eq_ok.mp hrest
  cases hreturn
  obtain ⟨first, htakes, rfl⟩ := hitem ha
  obtain ⟨rest, htakes', htree⟩ := items_sound hitem hreversed
  exact ⟨first, rest, htakes.append htakes', by simpa using htree⟩

/-- Arguments from a list of items. -/
def MoreArguments.ofList : List (Word .comma × Expression) → MoreArguments
  | [] => .none
  | (comma, argument) :: rest => .more comma argument (ofList rest)

theorem MoreArguments.yield_ofList (rest : List (Word .comma × Expression)) :
    (MoreArguments.ofList rest).yield = rest.flatMap fun (comma, d) => comma.1 :: d.yield := by
  induction rest with
  | nil => rfl
  | cons item rest ih => simp [MoreArguments.ofList, MoreArguments.yield, ih]

theorem MoreArguments.trees_ofList (rest : List (Word .comma × Expression)) :
    (MoreArguments.ofList rest).trees = rest.map fun (_, d) => d.tree := by
  induction rest with
  | nil => rfl
  | cons item rest ih => simp [MoreArguments.ofList, MoreArguments.trees, ih]

theorem arguments_sound {inner : Parser (Expr Unit)}
    (hinner : Sound inner Expression.yield Expression.tree) :
    Sound (list inner) Arguments.yield Arguments.trees := by
  intro s all s' h
  obtain ⟨b, u, hcheck, hbody⟩ := bind_eq_ok.mp h
  obtain ⟨token, hhead, rfl, rfl⟩ := check_eq_ok.mp hcheck
  split at hbody
  · cases hbody
    exact ⟨.none, .nil _, rfl⟩
  · obtain ⟨first, rest, htakes, rfl⟩ := separated_sound hinner hbody
    refine ⟨.some first (.ofList rest), ?_, ?_⟩
    · rw [Arguments.yield, MoreArguments.yield_ofList]
      exact htakes
    · rw [Arguments.trees, MoreArguments.trees_ofList]

theorem primary_sound {inner : Parser (Expr Unit)}
    (hinner : Sound inner Expression.yield Expression.tree) :
    Sound (primary inner) Primary.yield Primary.tree := by
  intro s e s' h
  obtain ⟨token, u, hpeek, hbody⟩ := bind_eq_ok.mp h
  obtain ⟨hhead, rfl⟩ := peek_eq_ok.mp hpeek
  -- Every word is taken from the same place of the stream.
  have hpop : ∀ {t v}, pop u = .ok t v → t = token ∧ v = u.tail := by
    intro t v hpop
    obtain ⟨hhead', rfl⟩ := pop_eq_ok.mp hpop
    rw [hhead] at hhead'
    cases hhead'
    exact ⟨rfl, rfl⟩
  generalize hkind : token.kind = kind at hbody
  cases kind with
  | identifier =>
    obtain ⟨t, v, ht, hreturn⟩ := bind_eq_ok.mp hbody
    obtain ⟨rfl, rfl⟩ := hpop ht
    cases hreturn
    exact ⟨.name ⟨t, hkind⟩, .single hhead, rfl⟩
  | kwFalse =>
    obtain ⟨t, v, ht, hreturn⟩ := bind_eq_ok.mp hbody
    obtain ⟨rfl, rfl⟩ := hpop ht
    cases hreturn
    exact ⟨.false ⟨t, hkind⟩, .single hhead, rfl⟩
  | kwTrue =>
    obtain ⟨t, v, ht, hreturn⟩ := bind_eq_ok.mp hbody
    obtain ⟨rfl, rfl⟩ := hpop ht
    cases hreturn
    exact ⟨.true ⟨t, hkind⟩, .single hhead, rfl⟩
  | kwNil =>
    obtain ⟨t, v, ht, hreturn⟩ := bind_eq_ok.mp hbody
    obtain ⟨rfl, rfl⟩ := hpop ht
    cases hreturn
    exact ⟨.nil ⟨t, hkind⟩, .single hhead, rfl⟩
  | number =>
    obtain ⟨t, v, ht, hreturn⟩ := bind_eq_ok.mp hbody
    obtain ⟨rfl, rfl⟩ := hpop ht
    cases hreturn
    exact ⟨.literal ⟨t, by simp [hkind]⟩, .single hhead, rfl⟩
  | string =>
    obtain ⟨t, v, ht, hreturn⟩ := bind_eq_ok.mp hbody
    obtain ⟨rfl, rfl⟩ := hpop ht
    cases hreturn
    exact ⟨.literal ⟨t, by simp [hkind]⟩, .single hhead, rfl⟩
  | leftParen =>
    obtain ⟨t, v, ht, hbody⟩ := bind_eq_ok.mp hbody
    obtain ⟨e, w, he, hbody⟩ := bind_eq_ok.mp hbody
    obtain ⟨right, x, hright, hreturn⟩ := bind_eq_ok.mp hbody
    obtain ⟨rfl, rfl⟩ := hpop ht
    obtain ⟨hhead', hkind', rfl⟩ := expect_eq_ok.mp hright
    cases hreturn
    obtain ⟨d, hd, rfl⟩ := hinner he
    exact ⟨.group ⟨t, hkind⟩ d ⟨right, hkind'⟩, .cons hhead (hd.concat hhead'), rfl⟩
  | _ => cases hbody

/-- Calls behind a callee. -/
theorem calls_sound {inner : Parser (Expr Unit)}
    (hinner : Sound inner Expression.yield Expression.tree) {fuel : Nat} {callee e : Expr Unit}
    {s s' : TokenStream}
    (h : repeatUpTo (fun callee => do
      if ← check [.leftParen] then
        let _ ← pop
        let arguments ← list inner
        return some (.call callee (← expect .argumentsEnd) arguments)
      else return none) fuel callee s = .ok e s') :
    ∃ calls : Calls, Takes s calls.yield s' ∧ calls.tree callee = e := by
  induction fuel generalizing callee s with
  | zero =>
    cases h
    exact ⟨.none, .nil _, rfl⟩
  | succ fuel ih =>
    obtain ⟨next, t, hstep, hrest⟩ := bind_eq_ok.mp h
    obtain ⟨b, u, hcheck, hbody⟩ := bind_eq_ok.mp hstep
    obtain ⟨token, hhead, rfl, rfl⟩ := check_eq_ok.mp hcheck
    split at hbody
    · rename_i hkind
      obtain ⟨left, v, hpop, hbody⟩ := bind_eq_ok.mp hbody
      obtain ⟨trees, w, hlist, hbody⟩ := bind_eq_ok.mp hbody
      obtain ⟨right, x, hright, hreturn⟩ := bind_eq_ok.mp hbody
      obtain ⟨-, rfl⟩ := pop_eq_ok.mp hpop
      obtain ⟨hhead', hkind', rfl⟩ := expect_eq_ok.mp hright
      cases hreturn
      obtain ⟨arguments, harguments, rfl⟩ := arguments_sound hinner hlist
      obtain ⟨rest, htakes, htree⟩ := ih hrest
      have hleft : token.kind = .leftParen := by simpa using hkind
      exact ⟨.more ⟨token, hleft⟩ arguments ⟨right, hkind'⟩ rest,
        .cons hhead (harguments.append (.cons hhead' htakes)), htree⟩
    · cases hbody
      cases hrest
      exact ⟨.none, .nil _, rfl⟩

theorem call_sound {inner : Parser (Expr Unit)}
    (hinner : Sound inner Expression.yield Expression.tree) :
    Sound (call inner) Unary.yield Unary.tree := by
  intro s e s' h
  obtain ⟨callee, t, hcallee, hrest⟩ := bind_eq_ok.mp h
  obtain ⟨d, hd, rfl⟩ := primary_sound hinner hcallee
  obtain ⟨calls, hcalls, rfl⟩ := calls_sound hinner hrest
  exact ⟨.call d calls, hd.append hcalls, rfl⟩

/-- Calls make no bare name of anything else. -/
theorem Calls.of_tree_eq_variable {name : Token} : ∀ (calls : Calls) (callee : Expr Unit),
    calls.tree callee = .variable () name → calls.yield = [] ∧ callee = .variable () name
  | .none, _, h => ⟨rfl, h⟩
  | .more _ _ _ rest, _, h => by
    cases (rest.of_tree_eq_variable _ h).2

/-- Operators make no bare name of anything else. -/
theorem Operands.of_tree_eq_variable {name : Token} :
    ∀ {level : Level} {tighter : List Level} (rest : Operands level tighter) (left : Expr Unit),
      (∀ left operator right, level.node left operator right ≠ .variable () name) →
        rest.tree left = .variable () name → rest.yield = [] ∧ left = .variable () name
  | _, _, .none, _, _, h => ⟨rfl, h⟩
  | _, _, .more _ _ rest, _, hnode, h =>
    (hnode _ _ _ (rest.of_tree_eq_variable _ hnode h).2).elim

theorem Unary.of_tree_eq_variable {name : Token} {d : Unary} (h : d.tree = .variable () name) :
    d.yield = [name] ∧ name.kind = .identifier := by
  cases d with
  | operator operator operand => cases h
  | call callee calls =>
    obtain ⟨hcalls, hcallee⟩ := calls.of_tree_eq_variable _ h
    cases callee with
    | name token =>
      cases hcallee
      exact ⟨by simp [Unary.yield, Primary.yield, hcalls], token.2⟩
    | literal token => cases hcallee
    | true token => cases hcallee
    | false token => cases hcallee
    | nil token => cases hcallee
    | group left inner right => cases hcallee

/-- An operation whose tree is a bare name consists of that name. -/
theorem Operation.of_tree_eq_variable {name : Token} : ∀ {tighter : List Level}
    (d : Operation tighter),
      (∀ level ∈ tighter, ∀ left operator right,
        level.node left operator right ≠ .variable () name) →
        d.tree = .variable () name → d.yield = [name] ∧ name.kind = .identifier
  | _, .unary operand, _, h => operand.of_tree_eq_variable h
  | _, .chain first rest, hnode, h => by
    obtain ⟨hrest, hfirst⟩ := rest.of_tree_eq_variable _ (hnode _ List.mem_cons_self) h
    obtain ⟨hyield, hkind⟩ := first.of_tree_eq_variable
      (fun level hlevel => hnode level (List.mem_cons_of_mem _ hlevel)) hfirst
    exact ⟨by rw [Operation.yield, hyield, hrest]; rfl, hkind⟩

theorem levels_node_ne_variable {name : Token} : ∀ level ∈ levels, ∀ left operator right,
    level.node left operator right ≠ .variable () name := by
  simp [levels]

/-- Expressions, and unary expressions, of any depth. -/
theorem expression_unary_sound (depth : Nat) :
    Sound (expression depth) Expression.yield Expression.tree ∧
      Sound (unary depth) Unary.yield Unary.tree := by
  induction depth using Nat.strongRecOn with
  | ind depth ih =>
    constructor
    · intro s e s' h
      cases depth with
      | zero => cases h
      | succ depth =>
        obtain ⟨hexpression, hunary⟩ := ih depth (Nat.lt_succ_self depth)
        unfold expression at h
        obtain ⟨target, t, htarget, hbody⟩ := bind_eq_ok.mp h
        obtain ⟨b, u, hcheck, hbody⟩ := bind_eq_ok.mp hbody
        obtain ⟨d, hd, rfl⟩ := climb_sound hunary levels htarget
        obtain ⟨token, hhead, hb, rfl⟩ := check_eq_ok.mp hcheck
        cases b with
        | true =>
          obtain ⟨equals, v, hpop, hbody⟩ := bind_eq_ok.mp hbody
          obtain ⟨value, w, hvalue, hend⟩ := bind_eq_ok.mp hbody
          obtain ⟨-, rfl⟩ := pop_eq_ok.mp hpop
          obtain ⟨dv, hdv, rfl⟩ := hexpression hvalue
          cases htree : d.tree with
          | «variable» site name =>
            simp only [htree] at hend
            cases hend
            obtain ⟨hyield, hidentifier⟩ := d.of_tree_eq_variable levels_node_ne_variable htree
            have hequal : token.kind = .equal := by simpa using hb
            have hname : Takes s d.yield u := hd
            rw [hyield] at hname
            exact ⟨.assignment ⟨name, hidentifier⟩ ⟨token, hequal⟩ dv,
              hname.append (.cons hhead hdv), rfl⟩
          | _ =>
            simp only [htree] at hend
            cases hend
        | false =>
          cases hbody
          exact ⟨.operation d, hd, rfl⟩
    · intro s e s' h
      unfold unary at h
      split at h
      · rename_i depth
        obtain ⟨b, u, hcheck, hbody⟩ := bind_eq_ok.mp h
        obtain ⟨token, hhead, rfl, rfl⟩ := check_eq_ok.mp hcheck
        split at hbody
        · rename_i hkind
          obtain ⟨operator, v, hpop, hbody⟩ := bind_eq_ok.mp hbody
          obtain ⟨operand, w, hoperand, hreturn⟩ := bind_eq_ok.mp hbody
          obtain ⟨hhead', rfl⟩ := pop_eq_ok.mp hpop
          rw [hhead] at hhead'
          cases hhead'
          cases hreturn
          obtain ⟨d, hd, rfl⟩ := (ih (depth + 7) (by omega)).2 hoperand
          have hmem : token.kind ∈ [Kind.bang, .minus] := by simpa using hkind
          exact ⟨.operator ⟨token, hmem⟩ d, .cons hhead hd, rfl⟩
        · exact call_sound (ih depth (by omega)).1 hbody
      · cases h

theorem expression_sound (depth : Nat) :
    Sound (expression depth) Expression.yield Expression.tree :=
  (expression_unary_sound depth).1

end Expressions

end Lox.Grammar
