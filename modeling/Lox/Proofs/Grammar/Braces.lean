import Lox.Proofs.Grammar.Lockstep
import Lox.Proofs.Grammar.ReadingStatements
import Lox.Proofs.Shell.Brackets

/-!
# Braces

The braces of a statement close one another, so what the parser takes for statements closes as many
braces as it opens. If the braces of a text match, every end of it closes at least as many as it
opens; one that closes more cannot be read without an error.
-/
namespace Lox
open Outcome

def Kind.brace? : Kind → Option Bracket
  | .leftBrace => some .opening
  | .rightBrace => some .closing
  | _ => none

/-- The braces among tokens. A lexical error has no kind. -/
def braces (kinds : List (Option Kind)) : List Bracket :=
  kinds.filterMap (·.bind Kind.brace?)

/-- The kinds of the tokens that are still to come. -/
def TokenStream.kinds (s : TokenStream) : List (Option Kind) :=
  s.pending.map fun
    | .ok token => some token.kind
    | .error _ => none

/-- The kinds of some tokens. -/
def kindsOf (ts : List Token) : List (Option Kind) :=
  ts.map fun t => some t.kind

@[simp] theorem braces_nil : braces [] = [] := rfl

@[simp] theorem braces_append (ks ls : List (Option Kind)) :
    braces (ks ++ ls) = braces ks ++ braces ls :=
  List.filterMap_append

@[simp] theorem kindsOf_nil : kindsOf [] = [] := rfl

@[simp] theorem kindsOf_cons (t : Token) (ts : List Token) :
    kindsOf (t :: ts) = some t.kind :: kindsOf ts := rfl

@[simp] theorem kindsOf_append (ts us : List Token) :
    kindsOf (ts ++ us) = kindsOf ts ++ kindsOf us :=
  List.map_append

theorem braces_cons (k : Option Kind) (ks : List (Option Kind)) :
    braces (k :: ks) = (k.bind Kind.brace?).toList ++ braces ks := by
  unfold braces
  rw [List.filterMap_cons]
  cases k.bind Kind.brace? <;> rfl

@[simp] theorem braces_cons_of_bare {kind : Kind} (h : kind.brace? = none) (ks : List (Option Kind)) :
    braces (some kind :: ks) = braces ks := by
  rw [braces_cons, Option.bind_some, h]
  rfl

theorem braces_cons_of_brace {kind : Kind} {b : Bracket} (h : kind.brace? = some b)
    (ks : List (Option Kind)) : braces (some kind :: ks) = b :: braces ks := by
  rw [braces_cons, Option.bind_some, h]
  rfl

namespace Bracket

/-- As many are closed as are opened. -/
def Even (bs : List Bracket) : Prop :=
  bs.count .opening = bs.count .closing

theorem Even.nil : Even [] := rfl

theorem Even.append {bs cs : List Bracket} (hbs : Even bs) (hcs : Even cs) : Even (bs ++ cs) := by
  unfold Even at *
  rw [List.count_append, List.count_append, hbs, hcs]

theorem Even.pair {bs : List Bracket} (h : Even bs) : Even (.opening :: (bs ++ [.closing])) := by
  unfold Even at *
  rw [count_pair, count_pair, h]
  rfl

/-- An end of brackets that match closes at least as many as it opens. -/
theorem Balanced.count_le_of_append {bs front back : List Bracket} (h : Balanced bs)
    (heq : bs = front ++ back) : back.count .opening ≤ back.count .closing := by
  induction h generalizing front back with
  | nil =>
    obtain ⟨-, rfl⟩ := List.append_eq_nil_iff.mp heq.symm
    exact Nat.le_refl _
  | @pair inner rest hinner hrest ihinner ihrest =>
    cases front with
    | nil =>
      rw [List.nil_append] at heq
      exact Nat.le_of_eq (heq ▸ (Balanced.pair hinner hrest).count_eq)
    | cons b front =>
      rw [List.cons_append, List.cons.injEq] at heq
      rcases List.append_eq_append_iff.mp heq.2 with ⟨cs, rfl, hback⟩ | ⟨cs, hcs, rfl⟩
      · cases cs with
        | nil =>
          rw [List.nil_append] at hback
          rw [← hback, List.count_cons_of_ne (by decide), List.count_cons_self]
          exact Nat.le_succ_of_le (Nat.le_of_eq hrest.count_eq)
        | cons c cs =>
          rw [List.cons_append, List.cons.injEq] at hback
          exact ihrest hback.2
      · rw [List.count_append, List.count_append, List.count_cons_of_ne (by decide),
          List.count_cons_self]
        have hinside := ihinner hcs
        have hbehind := Nat.le_of_eq hrest.count_eq
        omega

end Bracket

namespace Grammar
open Lox.Parser (Level levels)
open Lox.Bracket (Even)

/-- Tokens that are no braces. -/
def Bare (ts : List Token) : Prop :=
  ∀ t ∈ ts, t.kind.brace? = none

@[simp] theorem bare_nil : Bare [] := nofun

@[simp] theorem bare_cons {t : Token} {ts : List Token} :
    Bare (t :: ts) ↔ t.kind.brace? = none ∧ Bare ts :=
  List.forall_mem_cons

@[simp] theorem bare_append {ts us : List Token} : Bare (ts ++ us) ↔ Bare ts ∧ Bare us :=
  List.forall_mem_append

theorem Bare.braces_eq {ts : List Token} (h : Bare ts) : braces (kindsOf ts) = [] := by
  induction ts with
  | nil => rfl
  | cons t ts ih =>
    obtain ⟨ht, hts⟩ := bare_cons.mp h
    rw [kindsOf_cons, braces_cons_of_bare ht, ih hts]

theorem Word.bare {kind : Kind} (w : Word kind) (h : kind.brace? = none) :
    w.1.kind.brace? = none := by
  rw [w.2, h]

theorem Word.opening (w : Word .leftBrace) (ks : List (Option Kind)) :
    braces (some w.1.kind :: ks) = .opening :: braces ks :=
  braces_cons_of_brace (by rw [w.2]; rfl) ks

theorem Word.closing (w : Word .rightBrace) (ks : List (Option Kind)) :
    braces (some w.1.kind :: ks) = .closing :: braces ks :=
  braces_cons_of_brace (by rw [w.2]; rfl) ks

theorem OneOf.bare {kinds : List Kind} (w : OneOf kinds) (h : ∀ kind ∈ kinds, kind.brace? = none) :
    w.1.kind.brace? = none :=
  h _ w.2

/-- A level of operators that are no braces, like all levels of the grammar. -/
def BareLevel (level : Level) : Prop :=
  ∀ kind ∈ level.kinds, kind.brace? = none

theorem bareLevel_levels : ∀ level ∈ levels, BareLevel level := by
  unfold BareLevel
  decide

mutual

/-- There are no braces in an expression. -/
theorem Expression.bare : ∀ d : Expression, Bare d.yield
  | .assignment name equals value => by
    simp [Expression.yield, Word.bare name rfl, Word.bare equals rfl, value.bare]
  | .operation operation => operation.bare bareLevel_levels

theorem Operation.bare : ∀ {tighter : List Level} (d : Operation tighter),
    (∀ level ∈ tighter, BareLevel level) → Bare d.yield
  | _, .unary operand, _ => operand.bare
  | _, .chain first rest, h => by
    obtain ⟨hlevel, htighter⟩ := List.forall_mem_cons.mp h
    exact bare_append.mpr ⟨first.bare htighter, rest.bare hlevel htighter⟩

theorem Operands.bare : ∀ {level : Level} {tighter : List Level} (d : Operands level tighter),
    BareLevel level → (∀ level ∈ tighter, BareLevel level) → Bare d.yield
  | _, _, .none, _, _ => bare_nil
  | _, _, .more operator operand rest, hlevel, htighter => by
    simp [Operands.yield, OneOf.bare operator hlevel, operand.bare htighter, rest.bare hlevel htighter]

theorem Unary.bare : ∀ d : Unary, Bare d.yield
  | .operator operator operand => by
    simp [Unary.yield, OneOf.bare operator (by decide), operand.bare]
  | .call callee calls => bare_append.mpr ⟨callee.bare, calls.bare⟩

theorem Calls.bare : ∀ d : Calls, Bare d.yield
  | .none => bare_nil
  | .more left arguments right rest => by
    simp [Calls.yield, Word.bare left rfl, Word.bare right rfl, arguments.bare, rest.bare]

theorem Arguments.bare : ∀ d : Arguments, Bare d.yield
  | .none => bare_nil
  | .some first rest => bare_append.mpr ⟨first.bare, rest.bare⟩

theorem MoreArguments.bare : ∀ d : MoreArguments, Bare d.yield
  | .none => bare_nil
  | .more comma argument rest => by
    simp [MoreArguments.yield, Word.bare comma rfl, argument.bare, rest.bare]

theorem Primary.bare : ∀ d : Primary, Bare d.yield
  | .literal token => by simp [Primary.yield, OneOf.bare token (by decide)]
  | .true token | .false token | .nil token | .name token => by simp [Primary.yield, Word.bare token rfl]
  | .group left inner right => by
    simp [Primary.yield, Word.bare left rfl, Word.bare right rfl, inner.bare]

end

theorem Parameters.bare : ∀ d : Parameters, Bare d.yield
  | .none => bare_nil
  | .some first rest => by
    refine bare_cons.mpr ⟨Word.bare first rfl, fun t ht => ?_⟩
    obtain ⟨⟨comma, name⟩, -, hmem⟩ := List.mem_flatMap.mp ht
    rcases List.mem_pair.mp hmem with rfl | rfl
    · exact Word.bare comma rfl
    · exact Word.bare name rfl

mutual

/-- A statement opens as many braces as it closes. -/
theorem Statement.even : ∀ d : Statement, Even (braces (kindsOf d.yield))
  | .endOfInput token => by simp [Statement.yield, Word.bare token rfl, Even.nil]
  | .variable keyword name semicolon => by
    simp [Statement.yield, Word.bare keyword rfl, Word.bare name rfl, Word.bare semicolon rfl, Even.nil]
  | .initialized keyword name equals initializer semicolon => by
    simp [Statement.yield, Word.bare keyword rfl, Word.bare name rfl, Word.bare equals rfl,
      initializer.bare.braces_eq, Word.bare semicolon rfl, Even.nil]
  | .function keyword name left parameters right start body stop => by
    have hpair := body.even.pair
    simpa [Statement.yield, Word.bare keyword rfl, Word.bare name rfl, Word.bare left rfl,
      parameters.bare.braces_eq, Word.bare right rfl, Word.opening, Word.closing] using hpair
  | .block start body stop => by
    have hpair := body.even.pair
    simpa [Statement.yield, Word.opening, Word.closing] using hpair
  | .conditional keyword left condition right yes => by
    simp [Statement.yield, Word.bare keyword rfl, Word.bare left rfl, condition.bare.braces_eq,
      Word.bare right rfl, yes.even]
  | .alternative keyword left condition right yes otherwise no => by
    simp [Statement.yield, Word.bare keyword rfl, Word.bare left rfl, condition.bare.braces_eq,
      Word.bare right rfl, Word.bare otherwise rfl, yes.even.append no.even]
  | .loop keyword left condition right body => by
    simp [Statement.yield, Word.bare keyword rfl, Word.bare left rfl, condition.bare.braces_eq,
      Word.bare right rfl, body.even]
  | .print keyword value semicolon | .assert keyword value semicolon
  | .returning keyword value semicolon => by
    simp [Statement.yield, Word.bare keyword rfl, value.bare.braces_eq, Word.bare semicolon rfl, Even.nil]
  | .return keyword semicolon => by
    simp [Statement.yield, Word.bare keyword rfl, Word.bare semicolon rfl, Even.nil]
  | .expression value semicolon => by
    simp [Statement.yield, value.bare.braces_eq, Word.bare semicolon rfl, Even.nil]

theorem Statements.even : ∀ d : Statements, Even (braces (kindsOf d.yield))
  | .none => Even.nil
  | .more first rest => by simp [Statements.yield, first.even.append rest.even]

end

/-- What is taken from a stream and what is left of it have the braces of the stream. -/
theorem Takes.braces_eq {s rest : TokenStream} {ts : List Token} (h : Takes s ts rest) :
    braces s.kinds = braces (kindsOf ts) ++ braces rest.kinds := by
  induction h with
  | nil s => rfl
  | @cons s rest t ts hhead htakes ih =>
    obtain ⟨pending, lastLine⟩ := s
    cases pending with
    | nil =>
      obtain rfl : TokenStream.endToken ⟨[], lastLine⟩ = t := Except.ok.inj hhead
      simpa [TokenStream.endToken, braces_cons, Kind.brace?] using ih
    | cons answer pending =>
      obtain rfl : answer = .ok t := hhead
      rw [kindsOf_cons, braces_cons, List.append_assoc, ← ih]
      exact braces_cons _ _

end Grammar

namespace TokenStream
variable {s rest : TokenStream} {depth : Nat}

/-- A statement that is taken from a stream does not change by how many braces it closes more than it
opens. -/
theorem exists_even_of_takeStatement {statement : Stmt Unit}
    (h : s.takeStatement depth = (.ok statement, rest)) :
    ∃ bs, Bracket.Even bs ∧ braces s.kinds = bs ++ braces rest.kinds := by
  unfold TokenStream.takeStatement at h
  cases hrun : Parser.statement depth s with
  | error error t =>
    rw [hrun] at h
    cases h
  | ok other t =>
    rw [hrun] at h
    cases h
    obtain ⟨d, htakes, -, -⟩ := Grammar.statement_sound depth hrun
    exact ⟨_, d.even, htakes.braces_eq⟩

end TokenStream

end Lox
