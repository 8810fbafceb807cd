import Lox.Proofs.Grammar.AcceptingStatements
import Lox.Proofs.Grammar.Nearest
import Lox.Proofs.Grammar.Unambiguity

/-!
# The language of the parser

A text is read without an error exactly when its tokens have a derivation. The statements that are
read are those of the derivation in which every `else` belongs to the nearest open conditional, and
there is one such derivation. Behind its last token a text goes on delivering its end token, so a
derivation may contain it any number of times; reading stops at the first statement that is one.
-/
namespace Lox
open Grammar

namespace Lexer

theorem wordKind_ne_eof (word : String) : wordKind word ≠ .eof := by
  unfold wordKind
  cases hlookup : keywords.lookup word with
  | none => simp
  | some kind =>
    obtain ⟨front, back, hkeywords, -⟩ := List.lookup_eq_some_iff.mp hlookup
    have hmem : (word, kind) ∈ keywords := by simp [hkeywords]
    have hall : ∀ pair ∈ keywords, pair.2 ≠ .eof := by decide
    exact hall _ hmem

theorem single?_ne_eof {c : Char} {kind : Kind} (h : single? c = some kind) : kind ≠ .eof := by
  unfold single? at h
  split at h <;> simp_all <;> simp [← h]

theorem double?_ne_eof {c : Char} {alone withEqual : Kind}
    (h : double? c = some (alone, withEqual)) : alone ≠ .eof ∧ withEqual ≠ .eof := by
  unfold double? at h
  split at h <;> simp_all <;> simp [← h.1, ← h.2]

theorem string_ne_eof {text : List Char} {kind : Kind} {literal : Option Atom}
    (h : (string text).found = .ok (kind, literal)) : kind ≠ .eof := by
  unfold string at h
  split at h
  · cases h
  · cases h
    exact Kind.noConfusion

theorem numeral_ne_eof {lexeme rest : List Char} {value : Option Float} {kind : Kind}
    {literal : Option Atom} (h : (numeral lexeme rest value).found = .ok (kind, literal)) :
    kind ≠ .eof := by
  cases value with
  | none => cases h
  | some value =>
    cases h
    exact Kind.noConfusion

/-- No place of a text is read as the end of the text. -/
theorem span_ne_eof {c : Char} {rest : List Char} {kind : Kind} {literal : Option Atom}
    (h : (span c rest).found = .ok (kind, literal)) : kind ≠ .eof := by
  unfold span at h
  cases hdouble : double? c with
  | some pair =>
    obtain ⟨alone, withEqual⟩ := pair
    obtain ⟨halone, hwithEqual⟩ := double?_ne_eof hdouble
    simp only [hdouble] at h
    split at h
    · cases h
      exact hwithEqual
    · cases h
      exact halone
  | none =>
    cases hsingle : single? c with
    | some single =>
      simp only [hdouble, hsingle] at h
      cases h
      exact single?_ne_eof hsingle
    | none =>
      simp only [hdouble, hsingle] at h
      by_cases hquote : c = '"'
      · rw [if_pos hquote] at h
        exact string_ne_eof h
      · rw [if_neg hquote] at h
        by_cases hdigit : isDigit c = true
        · rw [if_pos hdigit] at h
          exact numeral_ne_eof h
        · rw [if_neg hdigit] at h
          by_cases hword : isWordStart c = true
          · rw [if_pos hword] at h
            cases h
            exact wordKind_ne_eof _
          · rw [if_neg hword] at h
            cases h

theorem outcomes_ne_eof {fuel : Nat} {place : Place} {t : Token}
    (h : .ok t ∈ (outcomes fuel place).1) : t.kind ≠ .eof := by
  induction fuel generalizing place with
  | zero => cases h
  | succ fuel ih =>
    unfold outcomes at h
    split at h
    · cases h
    · rcases List.mem_cons.mp h with hhead | htail
      · unfold Span.outcome at hhead
        split at hhead
        · cases hhead
        · rename_i hfound
          cases hhead
          exact span_ne_eof hfound
      · exact ih htail

end Lexer

theorem TokenStream.genuine_ofText (text : String) : (ofText text).Genuine := by
  intro t ht
  have hmem : .ok t ∈ (Lexer.outcomes (text.toList.length + 1) ⟨1, text.toList⟩).1 := ht
  exact Lexer.outcomes_ne_eof hmem

namespace Grammar
open Lox.Parser

/-- The statement that is the end of the input. -/
def Statement.isEnd : Statement → Bool
  | .endOfInput _ => true
  | _ => false

/-- The last of the statements is the end of the input, and none before it is. -/
def Statements.Whole : Statements → Prop
  | .none => False
  | .more first rest => if first.isEnd then rest = .none else rest.Whole

/-- A text has no lexical error, and the statements derive its tokens with some end tokens. -/
def Statements.Derives (d : Statements) (s : TokenStream) : Prop :=
  ∃ (tokens : List Token) (ends : Nat), s.pending = tokens.map .ok ∧
    d.yield = tokens ++ List.replicate ends s.endToken

section Ends

/-- Statements behind statements. -/
def Statements.append : Statements → Statements → Statements
  | .none, others => others
  | .more first rest, others => .more first (rest.append others)

/-- The end of the input, some times. -/
def Statements.ends (token : Word .eof) : Nat → Statements
  | 0 => .none
  | count + 1 => .more (.endOfInput token) (ends token count)

theorem Statements.yield_append : ∀ (d others : Statements),
    (d.append others).yield = d.yield ++ others.yield
  | .none, _ => rfl
  | .more first rest, others => by simp [append, Statements.yield, rest.yield_append others]

theorem Statements.near_append : ∀ (d others : Statements), d.Near → others.Near →
    (d.append others).Near
  | .none, _, _, hothers => hothers
  | .more _ rest, others, hnear, hothers => ⟨hnear.1, rest.near_append others hnear.2 hothers⟩

theorem Statements.append_none (d : Statements) : d.append .none = d := by
  cases d with
  | none => rfl
  | more first rest => rw [append, rest.append_none]

theorem Statements.yield_ends (token : Word .eof) (count : Nat) :
    (ends token count).yield = List.replicate count token.1 := by
  induction count with
  | zero => rfl
  | succ count ih =>
    rw [ends, Statements.yield, ih]
    rfl

theorem Statements.near_ends (token : Word .eof) (count : Nat) : (ends token count).Near := by
  induction count with
  | zero => trivial
  | succ count ih => exact ⟨trivial, ih⟩

/-- Behind the end of the input there is nothing more to read. -/
theorem Statements.Whole.eq_none_of_append : ∀ {d others : Statements}, d.Whole →
    (d.append others).Whole → others = .none
  | .more first rest, others, hwhole, happend => by
    unfold append at happend
    unfold Whole at hwhole happend
    split at hwhole
    · rename_i hend
      rw [if_pos hend] at happend
      rw [hwhole] at happend
      exact happend
    · rename_i hend
      rw [if_neg hend] at happend
      exact hwhole.eq_none_of_append happend

/-- The number of end tokens is determined by the text. -/
theorem Statements.eq_of_yield_append {d other : Statements} {token : Word .eof} {count : Nat}
    (hnear : d.Near) (hnear' : other.Near) (hwhole : d.Whole) (hwhole' : other.Whole)
    (h : other.yield = d.yield ++ List.replicate count token.1) : other = d := by
  have hother : d.append (ends token count) = other := by
    refine eq_of_yield_eq (d.near_append _ hnear (near_ends token count)) hnear' ?_
    rw [yield_append, yield_ends, h]
  have hnone : ends token count = .none := by
    rw [← hother] at hwhole'
    exact hwhole.eq_none_of_append hwhole'
  rw [← hother, hnone, append_none]

theorem Statements.Derives.unique {d other : Statements} {s : TokenStream} (h : d.Derives s)
    (h' : other.Derives s) (hnear : d.Near) (hnear' : other.Near) (hwhole : d.Whole)
    (hwhole' : other.Whole) : other = d := by
  obtain ⟨tokens, count, hpending, hyield⟩ := h
  obtain ⟨tokens', count', hpending', hyield'⟩ := h'
  obtain rfl : tokens = tokens' :=
    (List.map_inj_right fun _ _ heq => Except.ok.inj heq).mp (hpending.symm.trans hpending')
  let token : Word .eof := ⟨s.endToken, rfl⟩
  rcases Nat.le_total count count' with hle | hle
  · obtain ⟨more, rfl⟩ := Nat.exists_eq_add_of_le hle
    have hmore : other.yield = d.yield ++ List.replicate more token.1 := by
      rw [hyield, hyield', ← List.replicate_append_replicate, List.append_assoc]
    exact eq_of_yield_append hnear hnear' hwhole hwhole' hmore
  · obtain ⟨more, rfl⟩ := Nat.exists_eq_add_of_le hle
    have hmore : d.yield = other.yield ++ List.replicate more token.1 := by
      rw [hyield, hyield', ← List.replicate_append_replicate, List.append_assoc]
    exact (eq_of_yield_append hnear' hnear hwhole' hwhole hmore).symm

end Ends

section Streams
variable {s s' : TokenStream} {ts : List Token}

/-- What a stream delivers until it has ended is its tokens, and then its end token. -/
theorem Takes.eq_append_ends (h : Takes s ts s') (hend : s'.pending = []) :
    ∃ (tokens : List Token) (ends : Nat), s.pending = tokens.map .ok ∧
      ts = tokens ++ List.replicate ends s.endToken := by
  induction h with
  | nil s => exact ⟨[], 0, hend, rfl⟩
  | @cons s s' t ts hhead rest ih =>
    obtain ⟨tokens, ends, hpending, rfl⟩ := ih hend
    obtain ⟨pending, lastLine⟩ := s
    cases pending with
    | nil =>
      cases hhead
      obtain rfl : tokens = [] := List.map_eq_nil_iff.mp hpending.symm
      exact ⟨[], ends + 1, rfl, rfl⟩
    | cons outcome pending =>
      cases hhead
      exact ⟨t :: tokens, ends, by simpa using hpending, rfl⟩

/-- A statement whose tree is the end of the input is the end of the input. -/
theorem Statement.isEnd_of_tree {d : Statement} (h : d.tree = .endMarker) : d.isEnd = true := by
  cases d with
  | endOfInput => rfl
  | _ => cases h

theorem Statement.tree_of_isEnd {d : Statement} (h : d.isEnd = true) : d.tree = .endMarker := by
  cases d with
  | endOfInput => rfl
  | _ => cases h

/-- Any other statement takes a token that is not the end of the input. -/
theorem Statement.remaining_lt {d : Statement} (h : Takes s d.yield s') (hend : d.isEnd = false) :
    s'.remaining < s.remaining := by
  obtain ⟨t, rest, hyield, hkind⟩ := d.starts_kinds
  rw [hyield] at h
  obtain ⟨hhead, htail⟩ := h.uncons
  have hne : t.kind ≠ .eof := by
    intro heof
    rw [heof] at hkind
    cases d with
    | endOfInput => cases hend
    | _ => simp [kinds, starters, primaryStarters] at hkind
  have hlt := remaining_tail_lt hhead hne
  have hle := htail.remaining_le
  omega

section Listing
variable {depth fuel : Nat} {rest : TokenStream}

theorem statementsUpTo_of_end (h : s.takeStatement depth = (.ok .endMarker, rest)) :
    s.statementsUpTo depth (fuel + 1) = [.ok .endMarker] := by
  rw [TokenStream.statementsUpTo, h]

theorem statementsUpTo_of_ne {item : Except ParseError (Stmt Unit)}
    (h : s.takeStatement depth = (item, rest)) (hne : item ≠ .ok .endMarker) :
    s.statementsUpTo depth (fuel + 1) = item :: rest.statementsUpTo depth fuel := by
  rw [TokenStream.statementsUpTo, h]
  split
  · rename_i heq
    cases heq
    exact absurd rfl hne
  · rename_i heq
    cases heq
    rfl

theorem takeStatement_of_ok {tree : Stmt Unit} (h : Parser.statement depth s = .ok tree rest) :
    s.takeStatement depth = (.ok tree, rest) := by
  rw [TokenStream.takeStatement, h]

theorem takeStatement_of_error {error : ParseError}
    (h : Parser.statement depth s = .error error rest) :
    s.takeStatement depth = (.error error, rest.recover error) := by
  rw [TokenStream.takeStatement, h]

end Listing

/-- What is read from a text without an error has a derivation. -/
theorem statementsUpTo_sound {depth fuel : Nat} (hs : s.Genuine) (hfuel : s.remaining < fuel)
    (h : ∀ item ∈ s.statementsUpTo depth fuel, ∃ tree, item = .ok tree) :
    ∃ (d : Statements) (s' : TokenStream), Takes s d.yield s' ∧ s'.pending = [] ∧ d.Near ∧
      d.Whole ∧ s.statementsUpTo depth fuel = d.trees.map .ok := by
  induction fuel generalizing s with
  | zero => omega
  | succ fuel ih =>
    cases hstatement : Parser.statement depth s with
    | error error rest =>
      rw [statementsUpTo_of_ne (takeStatement_of_error hstatement) (by simp)] at h
      obtain ⟨tree, htree⟩ := h _ List.mem_cons_self
      cases htree
    | ok tree rest =>
      have htake := takeStatement_of_ok hstatement
      obtain ⟨first, hfirst, rfl, hnear, -⟩ := statement_sound depth hstatement
      cases hend : first.isEnd with
      | true =>
        have htree := Statement.tree_of_isEnd hend
        rw [htree] at htake
        refine ⟨.more first .none, rest, ?_, ?_, ⟨hnear, trivial⟩, ?_, ?_⟩
        · simpa [Statements.yield] using hfirst
        · cases first with
          | endOfInput token =>
            obtain ⟨hhead, hnil⟩ := hfirst.uncons
            have hpending := hs.pending_eq_nil hhead token.2
            rw [← hnil.eq_of_nil, TokenStream.tail_eq_self hpending]
            exact hpending
          | _ => cases hend
        · simp [Statements.Whole, hend]
        · rw [statementsUpTo_of_end htake]
          simp [Statements.trees, htree]
      | false =>
        have hne : first.tree ≠ .endMarker := fun htree => by
          rw [Statement.isEnd_of_tree htree] at hend
          cases hend
        have hlist : s.statementsUpTo depth (fuel + 1) =
            .ok first.tree :: rest.statementsUpTo depth fuel :=
          statementsUpTo_of_ne htake (by simpa using hne)
        rw [hlist] at h ⊢
        have hlt := Statement.remaining_lt hfirst hend
        obtain ⟨d, s', htakes, hpending, hnears, hwhole, htrees⟩ := ih (hfirst.genuine hs)
          (by omega) fun item hitem => h item (List.mem_cons_of_mem _ hitem)
        refine ⟨.more first d, s', hfirst.append htakes, hpending, ⟨hnear, hnears⟩, ?_, ?_⟩
        · simpa [Statements.Whole, hend] using hwhole
        · rw [htrees]
          rfl

/-- A statement that ends what a text delivers is not followed by an `else`. -/
theorem Statements.closed_of_pending_eq_nil (first : Statement) {rest : Statements}
    (h : Takes s rest.yield s') (hend : s'.pending = []) : first.Closed s := by
  intro _
  cases rest with
  | none =>
    cases h.eq_of_nil
    exact ⟨_, TokenStream.head_of_pending_eq_nil hend, by simp [TokenStream.endToken]⟩
  | more next rest =>
    have helse : ∀ kind ∈ statementStarters, kind ≠ .kwElse := by
      simp [statementStarters, starters, primaryStarters]
    exact (h.next (next.starts.append _)).mono helse

end Streams

end Grammar

end Lox
