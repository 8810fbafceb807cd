import Lox.Proofs.Layout.Respacing

/-!
# Derivations of what has been read

The statements that a text hands out have derivations, also when there are errors between them, and
the tokens of the derivations are tokens of the text. Conversely, a stream that delivers just the
tokens of statements hands out these statements, as long as they are not nested too deep.
-/
namespace Lox
open Grammar

namespace TokenStream
variable {s : TokenStream} {depth : Nat}

theorem handedOut_of_pending_eq_nil (h : s.pending = []) (depth : Nat) :
    s.handedOut (depth + 1) = [.endMarker] := by
  rw [handedOut, statements_of_pending_eq_nil h]
  rfl

end TokenStream

namespace Grammar
variable {s s' : TokenStream} {ts : List Token} {depth : Nat}

/-- Tokens that are taken before the end of a stream are the first ones that it delivers. -/
theorem Takes.pending_eq (h : Takes s ts s') (hunended : Unended ts) :
    s.pending = ts.map .ok ++ s'.pending := by
  induction h with
  | nil s => rfl
  | @cons s s' token ts hhead _ ih =>
    obtain ⟨pending, lastLine⟩ := s
    cases pending with
    | nil =>
      cases hhead
      exact absurd rfl (hunended _ List.mem_cons_self)
    | cons outcome pending =>
      cases hhead
      exact congrArg _ (ih hunended.tail)

/-- The first tokens that a stream delivers can be taken. -/
theorem takes_of_pending {rest : List (Except LexicalError Token)} {lastLine : Int} :
    ∀ ts : List Token, Takes ⟨ts.map .ok ++ rest, lastLine⟩ ts ⟨rest, lastLine⟩
  | [] => .nil _
  | _ :: ts => .cons rfl (takes_of_pending ts)

/-- A statement that has been read has a derivation that is not nested too deep. -/
theorem exists_statement {tree : Stmt Unit} {rest : TokenStream} (hs : s.Genuine)
    (h : s.takeStatement depth = (.ok tree, rest)) :
    ∃ d : Statement, Takes s d.yield rest ∧ d.tree = tree ∧ d.Near ∧ d.Fits depth := by
  unfold TokenStream.takeStatement at h
  cases hrun : Parser.statement depth s with
  | error error s' =>
    rw [hrun] at h
    cases h
  | ok other s' =>
    rw [hrun] at h
    cases h
    obtain ⟨d, htakes, rfl, hnear, hclosed⟩ := statement_sound depth hrun
    rcases statement_complete depth hs htakes hnear hclosed with ⟨hfits, -⟩ | ⟨-, line, u, herror⟩
    · exact ⟨d, htakes, rfl, hnear, hfits⟩
    · rw [hrun] at herror
      cases herror

/-- What a stream hands out has a derivation. If there has been no error, then all that the stream
delivers are the tokens of the derivation. -/
theorem exists_derivation (hs : s.Genuine)
    (hbodies : ∀ statement ∈ s.handedOut (depth + 1), statement.lacksBody = false) :
    ∃ d : Statements, s.handedOut (depth + 1) = d.trees ++ [.endMarker] ∧ d.Near ∧
      d.Fits (depth + 1) ∧ (∀ t ∈ d.yield, .ok t ∈ s.pending) ∧
      ((∀ item ∈ s.statements (depth + 1), ∃ statement, item = .ok statement) →
        s.pending = d.yield.map .ok) := by
  induction hcount : s.remaining using Nat.strongRecOn generalizing s with
  | ind count ih =>
    by_cases hpending : s.pending = []
    · exact ⟨.none, TokenStream.handedOut_of_pending_eq_nil hpending depth, trivial, trivial, nofun,
        fun _ => hpending⟩
    · have hless := hs.remaining_takeStatement_lt hpending (depth + 1)
      have hgenuine := hs.takeStatement (depth + 1)
      have hsuffix := s.pending_takeStatement_suffix (depth + 1)
      cases htake : s.takeStatement (depth + 1) with
      | mk item rest =>
        rw [htake] at hless hgenuine hsuffix
        have hstatements := statements_of_pending_ne_nil hs hpending htake
        rw [TokenStream.handedOut, hstatements] at hbodies ⊢
        cases item with
        | error e =>
          obtain ⟨d, hd, hnear, hfits, hmem, -⟩ := ih rest.remaining (hcount ▸ hless) hgenuine
            hbodies rfl
          refine ⟨d, hd, hnear, hfits, fun t ht => hsuffix.subset (hmem t ht), fun hall => ?_⟩
          obtain ⟨statement, hstatement⟩ := hall _ List.mem_cons_self
          cases hstatement
        | ok tree =>
          have hbody := hbodies tree List.mem_cons_self
          obtain ⟨d, hd, hnear, hfits, hmem, hall⟩ := ih rest.remaining (hcount ▸ hless) hgenuine
            (fun statement hstatement => hbodies statement (List.mem_cons_of_mem _ hstatement)) rfl
          obtain ⟨first, htakes, rfl, hnearFirst, hfitsFirst⟩ := exists_statement hs htake
          have hend : first.tree ≠ .endMarker := by
            intro hend
            rw [hend] at htake
            exact hpending (hs.pending_eq_nil_of_endMarker htake)
          have hfront := htakes.pending_eq (Statement.unended_of_takes hs htakes hend hbody)
          refine ⟨.more first d, congrArg (first.tree :: ·) hd, ⟨hnearFirst, hnear⟩,
            ⟨hfitsFirst, hfits⟩, fun t ht => ?_, fun hall' => ?_⟩
          · rcases List.mem_append.mp ht with ht | ht
            · rw [hfront]
              exact List.mem_append_left _ (List.mem_map_of_mem ht)
            · exact hsuffix.subset (hmem t ht)
          · rw [hfront, hall fun item hitem => hall' item (List.mem_cons_of_mem _ hitem)]
            simp [Statements.yield]

/-- A stream that delivers the tokens of statements hands out the statements. -/
theorem statements_of_derivation : ∀ (d : Statements) (lastLine : Int),
    TokenStream.Genuine ⟨d.yield.map .ok, lastLine⟩ → d.Near → d.Fits (depth + 1) →
      TokenStream.statements (depth + 1) ⟨d.yield.map .ok, lastLine⟩ =
        d.trees.map .ok ++ [.ok .endMarker]
  | .none, _, _, _, _ => statements_of_pending_eq_nil rfl depth
  | .more first rest, lastLine, hs, hnear, hfits => by
    have hyield : (Statements.more first rest).yield.map Except.ok =
        first.yield.map Except.ok ++ rest.yield.map (Except.ok : Token → Except LexicalError Token) :=
      List.map_append
    rw [hyield] at hs ⊢
    have htakes : Takes _ first.yield ⟨rest.yield.map .ok, lastLine⟩ := takes_of_pending first.yield
    have hrest : Takes ⟨rest.yield.map .ok ++ [], lastLine⟩ rest.yield ⟨[], lastLine⟩ :=
      takes_of_pending rest.yield
    rw [List.append_nil] at hrest
    have hclosed := Statements.closed_of_pending_eq_nil first hrest rfl
    obtain ⟨t, more, hstarts, -⟩ := first.starts
    have hpending : first.yield.map Except.ok ++
        rest.yield.map (Except.ok : Token → Except LexicalError Token) ≠ [] := by
      simp [hstarts]
    rcases statement_complete (depth + 1) hs htakes hnear.1 hclosed with ⟨-, hok⟩ | ⟨hnot, -⟩
    · rw [statements_of_pending_ne_nil hs hpending (takeStatement_of_ok hok),
        statements_of_derivation rest lastLine (htakes.genuine hs) hnear.2 hfits.2]
      rfl
    · exact absurd hfits.1 hnot

end Grammar

end Lox
