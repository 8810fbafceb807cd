import Lox.Proofs.Grammar.Language
import Lox.Proofs.Grammar.Regular
import Lox.Proofs.Respelling.Lines
import Lox.Syntax.Parser

/-!
# Reading two streams in lockstep

The parser looks at the kinds of tokens, copies tokens into trees, and names lines in its errors. So
on two streams that deliver the same tokens on other lines it goes the same way: it gives the same
trees on other lines and leaves streams that deliver the same again, or it fails with the same error
on another line.
-/
namespace Lox

/-- The same item on another line. -/
def LexicalError.reline (line : Int → Int) (e : LexicalError) : LexicalError :=
  { e with line := line e.line }

/-- The same error on another line. -/
def ParseError.reline (line : Int → Int) : ParseError → ParseError
  | .lexical e => .lexical (e.reline line)
  | .syntactic e => .syntactic { e with line := line e.line }

/-- A token on another line. -/
def Token.reline (line : Int → Int) (t : Token) : Token :=
  { t with line := line t.line }

/-- The same token, or the same error, on another line. -/
def relineHead (line : Int → Int) : Except LexicalError Token → Except LexicalError Token
  | .ok t => .ok (t.reline line)
  | .error e => .error (e.reline line)

/-- Streams that deliver the same on other lines, now and later. Of those behind a lexical error
more may be known. -/
structure TokenStream.Lockstep (line : Int → Int) (R Q : TokenStream → TokenStream → Prop) :
    Prop where
  head : ∀ {s t : TokenStream}, R s t → t.head = relineHead line s.head
  tail : ∀ {s t : TokenStream}, R s t → R s.tail t.tail
  remaining : ∀ {s t : TokenStream}, R s t → t.remaining = s.remaining
  error : ∀ {s t : TokenStream} {e : LexicalError}, R s t → s.head = .error e → Q s.tail t.tail
  weaken : ∀ {s t : TokenStream}, Q s t → R s t

namespace Parser
open Outcome

/-- The streams that two readers have left with an error. -/
def Behind (R Q : TokenStream → TokenStream → Prop) : ParseError → TokenStream → TokenStream → Prop
  | .lexical _ => Q
  | .syntactic _ => R

/-- Two readers have ended in lockstep: the second has given what `f` makes of the result of the
first, or has failed with the same error on another line. -/
def Stepped (line : Int → Int) (R Q : TokenStream → TokenStream → Prop) {α β : Type} (f : α → β) :
    EStateM.Result ParseError TokenStream α → EStateM.Result ParseError TokenStream β → Prop
  | .ok a s, other => ∃ t, other = .ok (f a) t ∧ R s t
  | .error e s, other => ∃ t, other = .error (e.reline line) t ∧ Behind R Q e s t

/-- Two readers go in lockstep. -/
def InStep (line : Int → Int) (R Q : TokenStream → TokenStream → Prop) {α β : Type} (f : α → β)
    (p : Parser α) (q : Parser β) : Prop :=
  ∀ s t : TokenStream, R s t → Stepped line R Q f (p s) (q t)

namespace InStep
variable {line : Int → Int} {R Q : TokenStream → TokenStream → Prop} {α β γ δ : Type} {f : α → β}
  {g : γ → δ} {p : Parser α} {q : Parser β}

theorem pure {a : α} {b : β} (h : b = f a) : InStep line R Q f (pure a) (Pure.pure b) := by
  subst h
  exact fun _ _ hst => ⟨_, rfl, hst⟩

theorem bind {k : α → Parser γ} {l : β → Parser δ} (hp : InStep line R Q f p q)
    (hk : ∀ a, InStep line R Q g (k a) (l (f a))) : InStep line R Q g (p >>= k) (q >>= l) := by
  intro s t hst
  have hfirst := hp s t hst
  rw [bind_apply, bind_apply]
  cases hrun : p s with
  | ok a s' =>
    rw [hrun] at hfirst
    obtain ⟨t', heq, hst'⟩ := hfirst
    rw [heq]
    exact hk a _ _ hst'
  | error e s' =>
    rw [hrun] at hfirst
    obtain ⟨t', heq, hst'⟩ := hfirst
    rw [heq]
    exact ⟨t', rfl, hst'⟩

theorem map {h : α → γ} {k : β → δ} (hp : InStep line R Q f p q) (hg : ∀ a, k (f a) = g (h a)) :
    InStep line R Q g (h <$> p) (k <$> q) := by
  have hbind : ∀ {ε ζ : Type} (m : ε → ζ) (r : Parser ε), m <$> r = r >>= fun a => Pure.pure (m a) :=
    fun _ _ => rfl
  rw [hbind, hbind]
  exact hp.bind fun a => .pure (hg a)

theorem fail (cause : SyntaxError.Cause) {n m : Int} (h : m = line n) :
    InStep line R Q f (Parser.fail cause n) (Parser.fail cause m) := by
  subst h
  exact fun _ _ hst => ⟨_, rfl, hst⟩

/-- The two readers may go one way or another, but both the same. -/
theorem ite {c c' : Prop} [Decidable c] [Decidable c'] (hc : c' ↔ c) {p' : Parser α} {q' : Parser β}
    (h : InStep line R Q f p q) (h' : InStep line R Q f p' q') :
    InStep line R Q f (if c then p else p') (if c' then q else q') := by
  by_cases hc' : c
  · rw [if_pos hc', if_pos (hc.mpr hc')]
    exact h
  · rw [if_neg hc', if_neg fun hpos => hc' (hc.mp hpos)]
    exact h'

theorem repeatUpTo {step : α → Parser (Option α)} {step' : β → Parser (Option β)}
    (hstep : ∀ a, InStep line R Q (Option.map f) (step a) (step' (f a))) (fuel : Nat) (a : α) :
    InStep line R Q f (repeatUpTo step fuel a) (Parser.repeatUpTo step' fuel (f a)) := by
  induction fuel generalizing a with
  | zero => exact .pure rfl
  | succ fuel ih =>
    refine (hstep a).bind fun next => ?_
    cases next with
    | none => exact .pure rfl
    | some next => exact ih next

section Streams
variable (hR : TokenStream.Lockstep line R Q)
include hR

theorem peek : InStep line R Q (Token.reline line) peek Parser.peek := by
  intro s t hst
  have hhead := hR.head hst
  cases hs : s.head with
  | ok token =>
    rw [hs] at hhead
    simp only [Parser.peek, hs, hhead, relineHead]
    exact ⟨t, rfl, hst⟩
  | error e =>
    rw [hs] at hhead
    simp only [Parser.peek, hs, hhead, relineHead]
    exact ⟨t.tail, rfl, hR.error hst hs⟩

theorem pop : InStep line R Q (Token.reline line) pop Parser.pop := by
  intro s t hst
  have hhead := hR.head hst
  cases hs : s.head with
  | ok token =>
    rw [hs] at hhead
    simp only [Parser.pop, hs, hhead, relineHead]
    exact ⟨t.tail, rfl, hR.tail hst⟩
  | error e =>
    rw [hs] at hhead
    simp only [Parser.pop, hs, hhead, relineHead]
    exact ⟨t.tail, rfl, hR.error hst hs⟩

theorem check (kinds : List Kind) : InStep line R Q id (check kinds) (Parser.check kinds) :=
  (peek hR).bind fun _ => .pure rfl

theorem tooDeep : InStep line R Q f tooDeep Parser.tooDeep := by
  intro s t hst
  have hline : t.line = line s.line := by
    have hhead := hR.head hst
    unfold TokenStream.line
    rw [hhead]
    cases s.head <;> rfl
  exact fail .tooDeep hline s t hst

theorem expect (expectation : Expectation) :
    InStep line R Q (Token.reline line) (expect expectation) (Parser.expect expectation) :=
  (peek hR).bind fun _ => ite Iff.rfl (pop hR) (fail _ rfl)

theorem repeatWhile {step : α → Parser (Option α)} {step' : β → Parser (Option β)}
    (hstep : ∀ a, InStep line R Q (Option.map f) (step a) (step' (f a))) (a : α) :
    InStep line R Q f (repeatWhile step a) (Parser.repeatWhile step' (f a)) := by
  intro s t hst
  unfold Parser.repeatWhile
  rw [hR.remaining hst]
  exact repeatUpTo hstep _ a s t hst

theorem separated {item : Parser α} {item' : Parser β} (hitem : InStep line R Q f item item') :
    InStep line R Q (List.map f) (separated item) (Parser.separated item') := by
  refine hitem.bind fun first => ?_
  refine (repeatWhile (f := List.map f) hR (fun items => ?_) [first]).bind fun reversed =>
    .pure List.map_reverse.symm
  refine (check hR _).bind fun more => ite Iff.rfl ((pop hR).bind fun _ => ?_) (.pure rfl)
  exact hitem.bind fun item => .pure rfl

theorem list {item : Parser α} {item' : Parser β} (hitem : InStep line R Q f item item') :
    InStep line R Q (List.map f) (list item) (Parser.list item') :=
  (check hR _).bind fun _ => ite Iff.rfl (.pure rfl) (separated hR hitem)

theorem chain {level : Level}
    (hnode : ∀ left operator right, level.node (left.respell (.lines line)) (operator.reline line)
      (right.respell (.lines line)) = (level.node left operator right).respell (.lines line))
    {operand operand' : Parser (Expr Unit)}
    (hoperand : InStep line R Q (Expr.respell (.lines line)) operand operand') :
    InStep line R Q (Expr.respell (.lines line)) (chain level operand) (Parser.chain level operand') := by
  refine hoperand.bind fun first => repeatWhile hR (fun left => ?_) first
  refine (check hR _).bind fun more => ite Iff.rfl ((pop hR).bind fun operator => ?_) (.pure rfl)
  exact hoperand.bind fun right => .pure (congrArg some (hnode left operator right))

theorem climb {operand operand' : Parser (Expr Unit)}
    (hoperand : InStep line R Q (Expr.respell (.lines line)) operand operand') {tighter : List Level}
    (hnode : ∀ level ∈ tighter, ∀ left operator right,
      level.node (left.respell (.lines line)) (operator.reline line)
        (right.respell (.lines line)) = (level.node left operator right).respell (.lines line)) :
    InStep line R Q (Expr.respell (.lines line)) (climb operand tighter)
      (Parser.climb operand' tighter) := by
  induction tighter with
  | nil => exact hoperand
  | cons level tighter ih =>
    exact chain hR (hnode level List.mem_cons_self)
      (ih fun other hother => hnode other (List.mem_cons_of_mem _ hother))

theorem primary {inner inner' : Parser (Expr Unit)}
    (hinner : InStep line R Q (Expr.respell (.lines line)) inner inner') :
    InStep line R Q (Expr.respell (.lines line)) (primary inner) (Parser.primary inner') := by
  refine (peek hR).bind fun token => ?_
  have hkind : (token.reline line).kind = token.kind := rfl
  simp only [hkind]
  split
  · exact (pop hR).bind fun name => .pure rfl
  · exact (pop hR).bind fun _ => .pure rfl
  · exact (pop hR).bind fun _ => .pure rfl
  · exact (pop hR).bind fun _ => .pure rfl
  · exact (pop hR).bind fun _ => .pure rfl
  · exact (pop hR).bind fun _ => .pure rfl
  · exact (pop hR).bind fun _ => hinner.bind fun inner => (expect hR _).bind fun _ => .pure rfl
  · exact fail _ rfl

theorem call {inner inner' : Parser (Expr Unit)}
    (hinner : InStep line R Q (Expr.respell (.lines line)) inner inner') :
    InStep line R Q (Expr.respell (.lines line)) (call inner) (Parser.call inner') := by
  refine (primary hR hinner).bind fun callee => repeatWhile hR (fun callee => ?_) callee
  refine (check hR _).bind fun more => ite Iff.rfl ((pop hR).bind fun _ => ?_) (.pure rfl)
  refine (list hR hinner).bind fun arguments => (expect hR _).bind fun paren => .pure ?_
  rw [Option.map_some, Expr.respell, Expr.respellAll_eq_map]
  rfl

theorem expression_unary (depth : Nat) :
    InStep line R Q (Expr.respell (.lines line)) (expression depth) (expression depth) ∧
      InStep line R Q (Expr.respell (.lines line)) (unary depth) (unary depth) := by
  induction depth using Nat.strongRecOn with
  | ind depth ih =>
    have hnode : ∀ level ∈ levels, ∀ left operator right,
        level.node (left.respell (.lines line)) (operator.reline line)
          (right.respell (.lines line)) = (level.node left operator right).respell (.lines line) := by
      intro level hlevel
      simp only [levels, List.mem_cons, List.not_mem_nil, or_false] at hlevel
      rcases hlevel with rfl | rfl | rfl | rfl | rfl | rfl <;> intros <;> rfl
    constructor
    · cases depth with
      | zero =>
        unfold expression
        exact tooDeep hR
      | succ depth =>
        unfold expression
        refine (climb hR (ih depth (Nat.lt_succ_self _)).2 hnode).bind fun target => ?_
        refine (check hR _).bind fun more => ite Iff.rfl ((pop hR).bind fun equals => ?_) (.pure rfl)
        refine (ih depth (Nat.lt_succ_self _)).1.bind fun value => ?_
        cases target with
        | «variable» site name => exact .pure rfl
        | _ => exact fail _ rfl
    · rcases depth with _ | _ | _ | _ | _ | _ | _ | _ | depth
      iterate 8 (unfold unary; exact tooDeep hR)
      unfold unary
      refine (check hR _).bind fun more => ite Iff.rfl ((pop hR).bind fun operator => ?_) ?_
      · exact (ih (depth + 7) (Nat.lt_succ_self _)).2.bind fun operand => .pure rfl
      · exact call hR (ih depth (by omega)).1

theorem block {statement statement' : Parser (Stmt Unit)}
    (hstatement : InStep line R Q (Stmt.respell (.lines line) none) statement statement') :
    InStep line R Q (List.map (Stmt.respell (.lines line) none)) (block statement)
      (Parser.block statement') := by
  refine (repeatWhile (f := List.map (Stmt.respell (.lines line) none)) hR (fun statements => ?_)
    []).bind fun reversed => (expect hR _).bind fun _ => .pure List.map_reverse.symm
  refine (check hR _).bind fun more => ite Iff.rfl (.pure rfl) ?_
  exact hstatement.bind fun statement => .pure rfl

theorem ended {inner inner' : Parser (Expr Unit)}
    (hinner : InStep line R Q (Expr.respell (.lines line)) inner inner') :
    InStep line R Q (Expr.respell (.lines line)) (ended inner) (Parser.ended inner') :=
  hinner.bind fun _ => (expect hR _).bind fun _ => .pure rfl

/-- Reading a statement from streams in lockstep. -/
theorem statement (depth : Nat) :
    InStep line R Q (Stmt.respell (.lines line) none) (statement depth) (Parser.statement depth) := by
  induction depth with
  | zero => exact tooDeep hR
  | succ depth ih =>
    have hinner := (expression_unary hR depth).1
    have hsome : InStep line R Q (Option.map (Expr.respell (.lines line)))
        (some <$> expression depth) (some <$> expression depth) := hinner.map fun _ => rfl
    refine (peek hR).bind fun token => ?_
    have hkind : (token.reline line).kind = token.kind := rfl
    simp only [hkind]
    split
    · exact (pop hR).bind fun _ => .pure rfl
    · refine (pop hR).bind fun _ => (expect hR _).bind fun name => ?_
      have hbehind : ∀ initializer : Option (Expr Unit),
          InStep line R Q (Stmt.respell (.lines line) none)
            (do let _ ← Parser.expect .variableEnd; return .variable name initializer)
            (do let _ ← Parser.expect .variableEnd
                return .variable (name.reline line) (initializer.map (Expr.respell (.lines line)))) :=
        fun initializer => (expect hR _).bind fun _ => .pure (by cases initializer <;> rfl)
      refine (check hR _).bind fun more => ite Iff.rfl ((pop hR).bind fun _ => ?_) ?_
      · exact hsome.bind hbehind
      · exact InStep.bind (.pure rfl) hbehind
    · refine (pop hR).bind fun _ => (expect hR _).bind fun name => (expect hR _).bind fun _ => ?_
      refine (list hR (expect hR _)).bind fun params => (expect hR _).bind fun _ => ?_
      refine (expect hR _).bind fun _ => (block hR ih).bind fun body => .pure ?_
      rw [Stmt.respell, Stmt.respellAll_lines_eq_map line]
      rfl
    · refine (pop hR).bind fun _ => (block hR ih).bind fun body => .pure ?_
      rw [Stmt.respell, Stmt.respellAll_lines_eq_map line]
    · refine (pop hR).bind fun _ => (expect hR _).bind fun _ => hinner.bind fun condition => ?_
      refine (expect hR _).bind fun _ => ih.bind fun yes => (check hR _).bind fun more => ?_
      refine ite Iff.rfl ((pop hR).bind fun _ => ih.bind fun no => .pure rfl) (.pure rfl)
    · refine (pop hR).bind fun _ => (expect hR _).bind fun _ => hinner.bind fun condition => ?_
      exact (expect hR _).bind fun _ => ih.bind fun body => .pure rfl
    · exact (pop hR).bind fun _ => (ended hR hinner).bind fun _ => .pure rfl
    · exact (pop hR).bind fun _ => (ended hR hinner).bind fun _ => .pure rfl
    · refine (pop hR).bind fun keyword => ?_
      have hbehind : ∀ value : Option (Expr Unit), InStep line R Q (Stmt.respell (.lines line) none)
          (do let _ ← Parser.expect .returnEnd; return .return keyword value)
          (do let _ ← Parser.expect .returnEnd
              return .return (keyword.reline line) (value.map (Expr.respell (.lines line)))) :=
        fun value => (expect hR _).bind fun _ => .pure (by cases value <;> rfl)
      refine (check hR _).bind fun more => ite Iff.rfl ?_ ?_
      · exact InStep.bind (.pure rfl) hbehind
      · exact hsome.bind hbehind
    · exact (ended hR hinner).bind fun _ => .pure rfl

end Streams

end InStep

end Parser

/-- What a stream hands out, on other lines. -/
def relineItem (line : Int → Int) :
    Except ParseError (Stmt Unit) → Except ParseError (Stmt Unit)
  | .ok statement => .ok (statement.respell (.lines line) none)
  | .error error => .error (error.reline line)

namespace TokenStream
variable {line : Int → Int} {R Q : TokenStream → TokenStream → Prop} {s t : TokenStream}

/-- Whether reading can go on at what comes next. -/
def isSyncPoint : Except LexicalError Token → Bool
  | .ok token => token.kind.isSyncPoint
  | .error _ => false

theorem sync_of_pending_eq_nil (h : s.pending = []) : s.sync = s := by
  obtain ⟨pending, lastLine⟩ := s
  subst h
  rfl

theorem sync_of_pending_ne_nil (h : s.pending ≠ []) :
    s.sync = if isSyncPoint s.head then s else s.tail.sync := by
  obtain ⟨pending, lastLine⟩ := s
  cases pending with
  | nil => exact absurd rfl h
  | cons item pending =>
    cases item with
    | error e => rfl
    | ok token =>
      by_cases hstop : token.kind.isSyncPoint = true
      · rw [if_pos (by exact hstop), sync, List.dropWhile_cons_of_neg (by simpa using hstop)]
      · rw [if_neg (by exact hstop), sync, List.dropWhile_cons_of_pos (by simpa using hstop)]
        rfl

theorem pending_eq_nil_iff : s.pending = [] ↔ s.remaining = 0 :=
  List.length_eq_zero_iff.symm

namespace Lockstep

theorem sync (hR : Lockstep line R Q) (hst : R s t) : R s.sync t.sync := by
  have hmain : ∀ count (s t : TokenStream), s.remaining = count → R s t → R s.sync t.sync := by
    intro count
    induction count with
    | zero =>
      intro s t hcount hst
      rw [sync_of_pending_eq_nil (pending_eq_nil_iff.mpr hcount),
        sync_of_pending_eq_nil (pending_eq_nil_iff.mpr ((hR.remaining hst).trans hcount))]
      exact hst
    | succ count ih =>
      intro s t hcount hst
      have hs : s.pending ≠ [] := fun h => by
        rw [pending_eq_nil_iff, hcount] at h
        cases h
      have ht : t.pending ≠ [] := fun h => by
        rw [pending_eq_nil_iff, hR.remaining hst, hcount] at h
        cases h
      have hsame : isSyncPoint t.head = isSyncPoint s.head := by
        rw [hR.head hst]
        cases s.head <;> rfl
      rw [sync_of_pending_ne_nil hs, sync_of_pending_ne_nil ht, hsame]
      split
      · exact hst
      · exact ih s.tail t.tail (by rw [remaining_tail, hcount]; rfl) (hR.tail hst)
  exact hmain _ s t rfl hst

theorem recover (hR : Lockstep line R Q) {error : ParseError} (hst : Parser.Behind R Q error s t) :
    R (s.recover error) (t.recover (error.reline line)) := by
  cases error with
  | lexical e => exact hR.sync (hR.weaken hst)
  | syntactic e => exact hR.sync (hR.tail hst)

/-- Streams in lockstep hand out the same statement or error, on another line. -/
theorem takeStatement (hR : Lockstep line R Q) (hst : R s t) (depth : Nat) :
    (t.takeStatement depth).1 = relineItem line (s.takeStatement depth).1 ∧
      R (s.takeStatement depth).2 (t.takeStatement depth).2 := by
  have hstep := Parser.InStep.statement hR depth s t hst
  unfold TokenStream.takeStatement
  cases hrun : Parser.statement depth s with
  | ok statement s' =>
    rw [hrun] at hstep
    obtain ⟨t', heq, hst'⟩ := hstep
    rw [heq]
    exact ⟨rfl, hst'⟩
  | error error s' =>
    rw [hrun] at hstep
    obtain ⟨t', heq, hst'⟩ := hstep
    rw [heq]
    exact ⟨rfl, hR.recover hst'⟩

end Lockstep

/-- What holds of a stream and stays when tokens are taken holds of all that the parser leaves. -/
theorem Lockstep.invariant {P Q : TokenStream → Prop} (htail : ∀ {s : TokenStream}, P s → P s.tail)
    (herror : ∀ {s : TokenStream} {e : LexicalError}, P s → s.head = .error e → Q s.tail)
    (hweaken : ∀ {s : TokenStream}, Q s → P s) :
    Lockstep id (fun s t => t = s ∧ P s) (fun s t => t = s ∧ Q s) where
  head := by
    rintro s t ⟨rfl, -⟩
    cases t.head <;> rfl
  tail := by
    rintro s t ⟨rfl, hs⟩
    exact ⟨rfl, htail hs⟩
  remaining := by
    rintro s t ⟨rfl, -⟩
    rfl
  error := by
    rintro s t e ⟨rfl, hs⟩ he
    exact ⟨rfl, herror hs he⟩
  weaken := by
    rintro s t ⟨rfl, hs⟩
    exact ⟨rfl, hweaken hs⟩

/-- What is behind a statement or an error of a text is part of the text. -/
theorem Genuine.takeStatement (h : s.Genuine) (depth : Nat) : (s.takeStatement depth).2.Genuine := by
  have hR := Lockstep.invariant (P := Genuine) (Q := Genuine) (fun hs => hs.tail)
    (fun hs _ => hs.tail) fun hs => hs
  exact (hR.takeStatement ⟨rfl, h⟩ depth).2.2

/-- At the end of a text there is the end marker, and nothing is left. -/
theorem takeStatement_of_pending_eq_nil (h : s.pending = []) (depth : Nat) :
    s.takeStatement (depth + 1) = (.ok .endMarker, s) := by
  obtain ⟨pending, lastLine⟩ := s
  subst h
  rfl

/-- Only behind a text there is its end. -/
theorem Genuine.pending_eq_nil_of_endMarker {rest : TokenStream} (hs : s.Genuine) {depth : Nat}
    (h : s.takeStatement depth = (.ok .endMarker, rest)) : s.pending = [] := by
  unfold TokenStream.takeStatement at h
  cases hrun : Parser.statement depth s with
  | error error t =>
    rw [hrun] at h
    cases h
  | ok other t =>
    rw [hrun] at h
    injection h with hother
    injection hother with hother
    obtain ⟨d, htakes, htree, -⟩ := Grammar.statement_sound depth hrun
    rw [hother] at htree
    cases d with
    | endOfInput token => exact hs.pending_eq_nil htakes.uncons.1 token.2
    | _ => cases htree

theorem remaining_tail_le (s : TokenStream) : s.tail.remaining ≤ s.remaining := by
  rw [remaining_tail]
  exact Nat.sub_le _ _

theorem remaining_pos_of_error {e : LexicalError} (h : s.head = .error e) : 0 < s.remaining := by
  refine Nat.pos_of_ne_zero fun hzero => ?_
  rw [← pending_eq_nil_iff] at hzero
  rw [head_of_pending_eq_nil hzero] at h
  cases h

/-- What is taken before the end of a text leaves less of it. -/
theorem Genuine.remaining_takeStatement_lt (h : s.Genuine) (hpending : s.pending ≠ []) (depth : Nat) :
    (s.takeStatement depth).2.remaining < s.remaining := by
  have hpos : 0 < s.remaining := Nat.pos_of_ne_zero fun hzero =>
    hpending (pending_eq_nil_iff.mpr hzero)
  have hR := Lockstep.invariant (P := fun u => u.remaining ≤ s.remaining)
    (Q := fun u => u.remaining < s.remaining) (fun {u} hu => Nat.le_trans u.remaining_tail_le hu)
    (fun {u e} hu he => by
      have hu' := remaining_pos_of_error he
      simp only [remaining_tail]
      omega) fun hu => Nat.le_of_lt hu
  have hless := Lockstep.invariant (P := fun u => u.remaining < s.remaining)
    (Q := fun u => u.remaining < s.remaining) (fun {u} hu => Nat.lt_of_le_of_lt u.remaining_tail_le hu)
    (fun {u e} hu he => Nat.lt_of_le_of_lt u.remaining_tail_le hu) fun hu => hu
  have hstep := Parser.InStep.statement hR depth s s ⟨rfl, Nat.le_refl _⟩
  cases hrun : Parser.statement depth s with
  | ok statement s' =>
    rw [Grammar.takeStatement_of_ok hrun]
    obtain ⟨d, htakes, -, -⟩ := Grammar.statement_sound depth hrun
    refine Grammar.Statement.remaining_lt htakes ?_
    by_contra hend
    cases d with
    | endOfInput token =>
      exact hpending (h.pending_eq_nil htakes.uncons.1 token.2)
    | _ => exact hend rfl
  | error error s' =>
    rw [hrun] at hstep
    obtain ⟨t, -, hbehind⟩ := hstep
    rw [Grammar.takeStatement_of_error hrun]
    cases error with
    | lexical e => exact (hless.sync hbehind).2
    | syntactic e =>
      refine (hless.sync (s := s'.tail) (t := s'.tail) ⟨rfl, ?_⟩).2
      have hle : s'.remaining ≤ s.remaining := hbehind.2
      rw [remaining_tail]
      omega

/-- What is left behind a statement or an error are the last tokens. -/
theorem pending_takeStatement_suffix (s : TokenStream) (depth : Nat) :
    (s.takeStatement depth).2.pending <:+ s.pending := by
  have htail : ∀ {u : TokenStream}, u.pending <:+ s.pending → u.tail.pending <:+ s.pending :=
    fun h => (List.tail_suffix _).trans h
  have hR := Lockstep.invariant (P := fun u => u.pending <:+ s.pending)
    (Q := fun u => u.pending <:+ s.pending) htail (fun h _ => htail h) id
  exact (hR.takeStatement ⟨rfl, List.suffix_rfl⟩ depth).2.2

end TokenStream

end Lox
