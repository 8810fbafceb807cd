import Lox.Proofs.Grammar.Bodies
import Lox.Proofs.Token.Scanning

/-!
# Two texts as one

A text without an error and another text behind it, on a line of its own, are read like the two
texts one after the other; only the lines of the second one are counted on. The first text must not
leave open what the second one could carry on: no body may be missing at its end, and the second text
must not start with an `else`.
-/
namespace Lox
open Grammar

namespace Lexer
variable {line : Int} {c : Char} {text rest behind : List Char}

section Shift
variable (k : Int)

/-- A text that starts further down. -/
theorem skip_add (line : Int) (inComment : Bool) (text : List Char) :
    skip (line + k) inComment text =
      ⟨(skip line inComment text).line + k, (skip line inComment text).rest⟩ := by
  have hfeed : ∀ line : Int, line + k + 1 = line + 1 + k := fun line => Int.add_right_comm line k 1
  fun_induction skip line inComment text with
  | case1 => rfl
  | case2 line inComment rest ih => rw [skip, hfeed, ih]
  | case3 line inComment rest ih => rw [skip, ih]
  | case4 line c rest hne hslash ih =>
    rw [skip_cons hne (by rintro rfl; cases rest <;> simp_all), if_pos rfl, ih]
  | case5 line inComment c rest hne hslash hcomment hblank ih =>
    rw [skip_cons hne (by rintro rfl; cases rest <;> simp_all), if_neg hcomment, if_pos hblank, ih]
  | case6 line inComment c rest hne hslash hcomment hblank =>
    rw [skip_cons hne (by rintro rfl; cases rest <;> simp_all), if_neg hcomment, if_neg hblank]

theorem Span.outcome_add (s : Span) (line : Int) :
    s.outcome (line + k) = relineHead (· + k) (s.outcome line) := by
  unfold Span.outcome
  cases s.found <;> rfl

theorem scan_add (line : Int) (text : List Char) :
    scan ⟨line + k, text⟩ =
      ((scan ⟨line, text⟩).1.map (relineHead (· + k)), (scan ⟨line, text⟩).2 + k) := by
  induction hlength : text.length using Nat.strongRecOn generalizing line text with
  | ind length ih =>
    have hskip := skip_add k line false text
    cases hplace : skip line false text with
    | mk first rest =>
      rw [hplace] at hskip
      cases rest with
      | nil =>
        rw [scan_of_end hplace, scan_of_end hskip]
        rfl
      | cons c rest =>
        have hless : (span c rest).rest.length < length := by
          rw [← hlength]
          exact length_span_lt hplace
        have hline := Int.add_right_comm first k ((span c rest).lexeme.count '\n' : Int)
        rw [scan_of_token hplace,
          scan_of_token hskip, hline, ih _ hless _ _ rfl, Span.outcome_add]
        rfl

end Shift

/-- A line feed carries no token on. -/
theorem apart_feed (c : Char) (behind : List Char) : Apart c ('\n' :: behind) := by
  rintro d ⟨⟩
  exact ⟨fun _ => by decide, fun _ => ⟨by decide +kernel, by decide⟩⟩

theorem Span.outcome_ne_error {s : Span} {t : Token} (h : s.outcome line = .ok t)
    (cause : LexicalError.Cause) : s.found ≠ .error cause := by
  intro hfound
  unfold Span.outcome at h
  rw [hfound] at h
  cases h

/-- Behind a text without an error and a line feed, scanning starts anew. -/
theorem scan_append_feed (h : ∀ outcome ∈ (scan ⟨line, text⟩).1, ∃ t, outcome = .ok t) :
    scan ⟨line, text ++ '\n' :: behind⟩ =
      ((scan ⟨line, text⟩).1 ++ (scan ⟨(scan ⟨line, text⟩).2 + 1, behind⟩).1,
        (scan ⟨(scan ⟨line, text⟩).2 + 1, behind⟩).2) := by
  induction hlength : text.length using Nat.strongRecOn generalizing line text with
  | ind length ih =>
    cases hplace : skip line false text with
    | mk first rest =>
      cases rest with
      | nil =>
        have hfeed : skip line false (text ++ '\n' :: behind) = skip (first + 1) false behind :=
          skip_append_feed hplace
        rw [scan_of_end hplace,
          scan_congr hfeed]
        rfl
      | cons c rest =>
        have hslash : ('\n' :: behind).head? ≠ some '/' := by simp
        have hjoined := skip_append hplace hslash
        have htoken := scan_of_token hplace
        rw [htoken] at h
        obtain ⟨t, ht⟩ := h _ List.mem_cons_self
        have hspan := span_append (Span.outcome_ne_error ht .unterminatedString)
          (apart_feed c behind)
        have hless : (span c rest).rest.length < length := by
          rw [← hlength]
          exact length_span_lt hplace
        have hrest := ih _ hless (fun outcome hmem => h outcome (List.mem_cons_of_mem _ hmem)) rfl
        rw [scan_of_token hjoined, hspan, htoken]
        simp only [Span.before, hrest]
        rfl

end Lexer

namespace TokenStream
variable {s t rest : TokenStream} {depth fuel : Nat}

/-- A stream, and another one when it has ended. -/
def join (s t : TokenStream) : TokenStream :=
  ⟨s.pending ++ t.pending, t.lastLine⟩

/-- A stream on other lines. -/
def reline (line : Int → Int) (s : TokenStream) : TokenStream :=
  ⟨s.pending.map (relineHead line), line s.lastLine⟩

/-- A text behind a text without an error, on a line of its own. -/
theorem ofText_append {text : String} (other : String)
    (h : ∀ outcome ∈ (ofText text).pending, ∃ t, outcome = .ok t) :
    ofText (text ++ "\n" ++ other) =
      (ofText text).join ((ofText other).reline (· + (ofText text).lastLine)) := by
  have hscan : ∀ text : String, ofText text =
      ⟨(Lexer.scan ⟨1, text.toList⟩).1, (Lexer.scan ⟨1, text.toList⟩).2⟩ := fun _ => rfl
  have hfeed : (text ++ "\n" ++ other).toList = text.toList ++ '\n' :: other.toList := by
    simp
  have hjoined : Lexer.scan ⟨1, text.toList ++ '\n' :: other.toList⟩ = _ := Lexer.scan_append_feed h
  have hline : (ofText text).lastLine + 1 = 1 + (ofText text).lastLine := Int.add_comm _ _
  have hshift := Lexer.scan_add (ofText text).lastLine 1 other.toList
  rw [hscan (text ++ "\n" ++ other), hfeed, hjoined, join, reline]
  change (⟨(ofText text).pending ++ (Lexer.scan ⟨(ofText text).lastLine + 1, other.toList⟩).1,
    (Lexer.scan ⟨(ofText text).lastLine + 1, other.toList⟩).2⟩ : TokenStream) = _
  rw [hline, hshift]
  rfl

theorem lockstep_reline (line : Int → Int) :
    Lockstep line (fun s t => t = s.reline line) fun s t => t = s.reline line where
  head := by
    rintro ⟨pending, lastLine⟩ t rfl
    cases pending <;> rfl
  tail := by
    rintro ⟨pending, lastLine⟩ t rfl
    cases pending <;> rfl
  remaining := by
    rintro s t rfl
    exact List.length_map _
  error := by
    rintro ⟨pending, lastLine⟩ t e rfl -
    cases pending <;> rfl
  weaken := fun h => h

/-- On other lines only the end of the input is the end of the input. -/
theorem eq_endMarker_of_relineItem {line : Int → Int} {item : Except ParseError (Stmt Unit)}
    (h : relineItem line item = .ok .endMarker) : item = .ok .endMarker := by
  cases item with
  | error e => cases h
  | ok statement =>
    cases statement with
    | endMarker => rfl
    | «variable» name initializer => cases initializer <;> cases h
    | conditional condition yes no => cases no <;> cases h
    | «return» keyword value => cases value <;> cases h
    | _ => cases h

/-- Streams in lockstep hand out the same statements and errors, on other lines. -/
theorem Lockstep.statementsUpTo {line : Int → Int} {R Q : TokenStream → TokenStream → Prop}
    (hR : Lockstep line R Q) (hst : R s t) (depth fuel : Nat) :
    t.statementsUpTo depth fuel = (s.statementsUpTo depth fuel).map (relineItem line) := by
  induction fuel generalizing s t with
  | zero => rfl
  | succ fuel ih =>
    obtain ⟨hitem, hrest⟩ := hR.takeStatement hst depth
    cases hs : s.takeStatement depth with
    | mk item s' =>
      cases ht : t.takeStatement depth with
      | mk other t' =>
        rw [hs, ht] at hitem hrest
        obtain rfl : other = relineItem line item := hitem
        by_cases hend : item = .ok .endMarker
        · subst hend
          rw [statementsUpTo_of_end hs, statementsUpTo_of_end ht]
          rfl
        · have hother : relineItem line item ≠ .ok .endMarker :=
            fun h => hend (eq_endMarker_of_relineItem h)
          rw [statementsUpTo_of_ne hs hend, statementsUpTo_of_ne ht hother, ih hrest]
          rfl

theorem statements_reline (line : Int → Int) (s : TokenStream) (depth : Nat) :
    (s.reline line).statements depth = (s.statements depth).map (relineItem line) := by
  have hR := lockstep_reline line
  unfold statements
  rw [hR.remaining (rfl : s.reline line = s.reline line)]
  exact hR.statementsUpTo rfl depth _

theorem genuine_reline (hs : s.Genuine) (line : Int → Int) : (s.reline line).Genuine := by
  intro t ht
  obtain ⟨outcome, hmem, heq⟩ := List.mem_map.mp ht
  cases outcome with
  | error e => cases heq
  | ok token =>
    cases heq
    exact hs token hmem

theorem genuine_join (hs : s.Genuine) (ht : t.Genuine) : (s.join t).Genuine :=
  fun token hmem => (List.mem_append.mp hmem).elim (hs token) (ht token)

theorem join_of_pending_eq_nil (h : s.pending = []) (t : TokenStream) : s.join t = t := by
  simp [join, h]

theorem head_join (h : s.pending ≠ []) (t : TokenStream) : (s.join t).head = s.head := by
  obtain ⟨_ | ⟨outcome, pending⟩, lastLine⟩ := s
  · exact absurd rfl h
  · rfl

theorem tail_join (h : s.pending ≠ []) (t : TokenStream) : (s.join t).tail = s.tail.join t := by
  obtain ⟨_ | ⟨outcome, pending⟩, lastLine⟩ := s
  · exact absurd rfl h
  · rfl

end TokenStream

namespace Grammar
variable {s s' t rest : TokenStream} {ts : List Token}

/-- What is taken before the end of a stream can be taken when another stream is behind it. -/
theorem Takes.join (h : Takes s ts s') (hunended : Unended ts) (t : TokenStream) :
    Takes (s.join t) ts (s'.join t) := by
  induction h with
  | nil s => exact .nil _
  | @cons s s' token ts hhead _ ih =>
    have hpending : s.pending ≠ [] := fun hnil => by
      rw [TokenStream.head_of_pending_eq_nil hnil] at hhead
      cases hhead
      exact hunended _ List.mem_cons_self rfl
    refine .cons ((TokenStream.head_join hpending t).trans hhead) ?_
    rw [TokenStream.tail_join hpending]
    exact ih hunended.tail

/-- Only when the first stream has ended it matters for the last statement what the other one starts
with. -/
theorem Statement.Closed.join {d : Statement} (h : d.Closed s)
    (hnext : s.pending = [] → d.Closed t) : d.Closed (s.join t) := by
  intro hopen
  by_cases hpending : s.pending = []
  · rw [TokenStream.join_of_pending_eq_nil hpending]
    exact hnext hpending hopen
  · obtain ⟨token, hhead, hkind⟩ := h hopen
    exact ⟨token, (TokenStream.head_join hpending t).trans hhead, hkind⟩

/-- A statement with all its bodies that is read before the end of a text has a derivation that is
nested not too deep and does not take the end. -/
theorem takeStatement_derives {depth : Nat} {tree : Stmt Unit} (hs : s.Genuine)
    (hpending : s.pending ≠ []) (h : s.takeStatement depth = (.ok tree, rest))
    (hbody : tree.lacksBody = false) :
    ∃ d : Statement, Takes s d.yield rest ∧ d.tree = tree ∧ d.Near ∧ d.Closed rest ∧
      d.Fits depth ∧ Unended d.yield := by
  have hend : tree ≠ .endMarker := by
    rintro rfl
    exact hpending (hs.pending_eq_nil_of_endMarker h)
  unfold TokenStream.takeStatement at h
  cases hrun : Parser.statement depth s with
  | error error s' =>
    rw [hrun] at h
    cases h
  | ok other s' =>
    rw [hrun] at h
    cases h
    obtain ⟨d, htakes, rfl, hnear, hclosed⟩ := statement_sound depth hrun
    have hunended := Statement.unended_of_takes hs htakes hend hbody
    have hfits : d.Fits depth := by
      rcases statement_complete depth hs htakes hnear hclosed with ⟨hfits, -⟩ | ⟨-, line, u, herror⟩
      · exact hfits
      · rw [hrun] at herror
        cases herror
    exact ⟨d, htakes, rfl, hnear, hclosed, hfits, hunended⟩

/-- A statement of the first text is read when the other text is behind it. -/
theorem takeStatement_join {depth : Nat} {tree : Stmt Unit} (hs : s.Genuine) (ht : t.Genuine)
    (hnext : rest.pending = [] → tree.awaitsElse = true → Next (fun kind => kind ≠ .kwElse) t)
    (hpending : s.pending ≠ [])
    (h : s.takeStatement depth = (.ok tree, rest)) (hbody : tree.lacksBody = false) :
    (s.join t).takeStatement depth = (.ok tree, rest.join t) := by
  obtain ⟨d, htakes, rfl, hnear, hclosed, hfits, hunended⟩ :=
    takeStatement_derives hs hpending h hbody
  have hjoined := hclosed.join fun hend hopen => hnext hend (d.awaitsElse_tree.trans hopen)
  rcases statement_complete depth (TokenStream.genuine_join hs ht) (htakes.join hunended t) hnear
    hjoined with ⟨-, hok⟩ | ⟨hnot, -⟩
  · exact takeStatement_of_ok hok
  · exact absurd hfits hnot

/-- What is read of a text does not depend on the fuel, if there is enough. -/
theorem statementsUpTo_eq {depth fuel : Nat} (hs : s.Genuine) (hfuel : s.remaining < fuel) :
    s.statementsUpTo (depth + 1) fuel = s.statements (depth + 1) := by
  have hmain : ∀ fuel fuel' (s : TokenStream), s.Genuine → s.remaining < fuel → s.remaining < fuel' →
      s.statementsUpTo (depth + 1) fuel = s.statementsUpTo (depth + 1) fuel' := by
    intro fuel
    induction fuel with
    | zero => exact fun _ _ _ h => absurd h (Nat.not_lt_zero _)
    | succ fuel ih =>
      rintro (_ | fuel') s hs h h'
      · exact absurd h' (Nat.not_lt_zero _)
      · cases htake : s.takeStatement (depth + 1) with
        | mk item rest =>
          by_cases hend : item = .ok .endMarker
          · subst hend
            rw [statementsUpTo_of_end htake, statementsUpTo_of_end htake]
          · have hpending : s.pending ≠ [] := fun hnil => by
              rw [TokenStream.takeStatement_of_pending_eq_nil hnil] at htake
              cases htake
              exact hend rfl
            have hless := hs.remaining_takeStatement_lt hpending (depth + 1)
            have hrest := hs.takeStatement (depth + 1)
            rw [htake] at hless hrest
            rw [statementsUpTo_of_ne htake hend, statementsUpTo_of_ne htake hend,
              ih fuel' rest hrest (Nat.lt_of_lt_of_le hless (Nat.le_of_lt_succ h))
                (Nat.lt_of_lt_of_le hless (Nat.le_of_lt_succ h'))]
  exact hmain _ _ s hs hfuel (Nat.lt_succ_self _)

section Listing
variable {depth : Nat} {item : Except ParseError (Stmt Unit)}

/-- What is read of a stream that has ended. -/
theorem statements_of_pending_eq_nil (h : s.pending = []) (depth : Nat) :
    s.statements (depth + 1) = [.ok .endMarker] :=
  statementsUpTo_of_end (TokenStream.takeStatement_of_pending_eq_nil h depth)

/-- What is read of a stream that has not ended. -/
theorem statements_of_pending_ne_nil (hs : s.Genuine) (hpending : s.pending ≠ [])
    (h : s.takeStatement (depth + 1) = (item, rest)) :
    s.statements (depth + 1) = item :: rest.statements (depth + 1) := by
  have hless := hs.remaining_takeStatement_lt hpending (depth + 1)
  have hrest := hs.takeStatement (depth + 1)
  rw [h] at hless hrest
  have hne : item ≠ .ok .endMarker := by
    rintro rfl
    exact hpending (hs.pending_eq_nil_of_endMarker h)
  have hlist : s.statements (depth + 1) = item :: rest.statementsUpTo (depth + 1) s.remaining :=
    statementsUpTo_of_ne h hne
  rw [hlist, statementsUpTo_eq hrest hless]

/-- A stream of which only the end is read has ended. -/
theorem pending_eq_nil_of_statements (hs : s.Genuine)
    (h : s.statements (depth + 1) = [.ok .endMarker]) : s.pending = [] := by
  by_contra hpending
  cases htake : s.takeStatement (depth + 1) with
  | mk item rest =>
    rw [statements_of_pending_ne_nil hs hpending htake] at h
    obtain ⟨rfl, -⟩ := List.cons.inj h
    exact hpending (hs.pending_eq_nil_of_endMarker htake)

/-- Of a stream of which more than the end is read, the first item is taken, and then the others are
read. -/
theorem takeStatement_of_statements {items : List (Except ParseError (Stmt Unit))} (hs : s.Genuine)
    (h : s.statements (depth + 1) = item :: items) (hitems : items ≠ []) :
    s.pending ≠ [] ∧ ∃ rest, rest.Genuine ∧ s.takeStatement (depth + 1) = (item, rest) ∧
      rest.statements (depth + 1) = items := by
  have hpending : s.pending ≠ [] := fun hnil => by
    rw [statements_of_pending_eq_nil hnil] at h
    exact hitems (List.cons.inj h).2.symm
  have hgenuine := hs.takeStatement (depth + 1)
  rw [statements_of_pending_ne_nil hs hpending rfl] at h
  obtain ⟨hitem, hrest⟩ := List.cons.inj h
  exact ⟨hpending, _, hgenuine, Prod.ext hitem rfl, hrest⟩

/-- What is read of a stream that has not ended, and of another one behind it. -/
theorem statements_join_of_pending_ne_nil (hs : s.Genuine) (ht : t.Genuine) (hpending : s.pending ≠ [])
    (h : (s.join t).takeStatement (depth + 1) = (item, rest)) :
    (s.join t).statements (depth + 1) = item :: rest.statements (depth + 1) :=
  statements_of_pending_ne_nil (TokenStream.genuine_join hs ht)
    (fun hnil => hpending (List.append_eq_nil_iff.mp hnil).1) h

/-- A text without an error, with all bodies: there are statements without an end marker in them, and
then the end of the input. -/
theorem exists_statements (hs : s.Genuine)
    (h : ∀ item ∈ s.statements (depth + 1), ∃ statement : Stmt Unit,
      item = .ok statement ∧ statement.lacksBody = false) :
    ∃ statements : List (Stmt Unit),
      s.statements (depth + 1) = statements.map .ok ++ [.ok .endMarker] ∧
        ∀ statement ∈ statements, statement.lacksBody = false ∧
          statement.Within .regular False none := by
  induction hcount : s.remaining using Nat.strongRecOn generalizing s with
  | ind count ih =>
    by_cases hpending : s.pending = []
    · exact ⟨[], statements_of_pending_eq_nil hpending depth, fun _ hmem => by cases hmem⟩
    · have hless := hs.remaining_takeStatement_lt hpending (depth + 1)
      have hgenuine := hs.takeStatement (depth + 1)
      cases htake : s.takeStatement (depth + 1) with
      | mk item rest =>
        rw [htake] at hless hgenuine
        rw [statements_of_pending_ne_nil hs hpending htake] at h ⊢
        obtain ⟨statement, rfl, hbody⟩ := h item List.mem_cons_self
        obtain ⟨statements, hstatements, hall⟩ := ih rest.remaining (hcount ▸ hless) hgenuine
          (fun item hmem => h item (List.mem_cons_of_mem _ hmem)) rfl
        refine ⟨statement :: statements, by rw [hstatements]; rfl, fun other hother => ?_⟩
        rcases List.mem_cons.mp hother with rfl | hother
        · exact ⟨hbody, takeStatement_within_of_bodies hs hpending htake hbody⟩
        · exact hall other hother

/-- The statements of a text without an error, and behind them what is read of another text. -/
theorem statements_join {statements : List (Stmt Unit)} (hs : s.Genuine) (ht : t.Genuine)
    (hnext : (∃ last ∈ statements.getLast?, last.awaitsElse = true) →
      Next (fun kind => kind ≠ .kwElse) t)
    (h : s.statements (depth + 1) = statements.map .ok ++ [.ok .endMarker])
    (hbodies : ∀ statement ∈ statements, statement.lacksBody = false) :
    (s.join t).statements (depth + 1) = statements.map .ok ++ t.statements (depth + 1) := by
  induction statements generalizing s with
  | nil =>
    rw [TokenStream.join_of_pending_eq_nil (pending_eq_nil_of_statements hs h)]
    rfl
  | cons statement statements ih =>
    obtain ⟨hpending, rest, hgenuine, htake, hrest⟩ := takeStatement_of_statements hs h (by simp)
    have hlast : rest.pending = [] → statement.awaitsElse = true →
        Next (fun kind => kind ≠ .kwElse) t := by
      intro hend hawaits
      have hnone := statements_of_pending_eq_nil hend depth
      rw [hrest] at hnone
      cases statements with
      | nil => exact hnext ⟨statement, rfl, hawaits⟩
      | cons other statements => simp at hnone
    have hjoined := takeStatement_join hs ht hlast hpending htake (hbodies _ List.mem_cons_self)
    rw [statements_join_of_pending_ne_nil hs ht hpending hjoined,
      ih hgenuine ?_ hrest fun other hmem => hbodies other (List.mem_cons_of_mem _ hmem)]
    · rfl
    · rintro ⟨last, hmem, hawaits⟩
      refine hnext ⟨last, ?_, hawaits⟩
      cases statements with
      | nil => cases hmem
      | cons other statements => exact hmem

/-- A text without an error, and another text behind it, as streams. -/
theorem ofText_append_of_statements {source : String} {statements : List (Stmt Unit)}
    (h : (TokenStream.ofText source).statements (depth + 1) =
      statements.map .ok ++ [.ok .endMarker]) (other : String) :
    TokenStream.ofText (source ++ "\n" ++ other) = (TokenStream.ofText source).join
      ((TokenStream.ofText other).reline (· + (TokenStream.ofText source).lastLine)) := by
  have hs := TokenStream.genuine_ofText source
  have hall : ∀ item ∈ (TokenStream.ofText source).statements (depth + 1), ∃ tree, item = .ok tree := by
    rw [h]
    intro item hitem
    rcases List.mem_append.mp hitem with hfront | hlast
    · obtain ⟨statement, -, rfl⟩ := List.mem_map.mp hfront
      exact ⟨statement, rfl⟩
    · exact ⟨.endMarker, List.mem_singleton.mp hlast⟩
  obtain ⟨d, s', htakes, hend, -⟩ := statementsUpTo_sound hs (Nat.lt_succ_self _) hall
  obtain ⟨tokens, -, hpending, -⟩ := htakes.eq_append_ends hend
  refine TokenStream.ofText_append other ?_
  rw [hpending]
  intro outcome houtcome
  obtain ⟨token, -, rfl⟩ := List.mem_map.mp houtcome
  exact ⟨token, rfl⟩

/-- The kind of the next token does not depend on the lines. -/
theorem Next.reline {P : Kind → Prop} (h : Next P s) (line : Int → Int) : Next P (s.reline line) := by
  obtain ⟨token, hhead, hkind⟩ := h
  refine ⟨token.reline line, ?_, hkind⟩
  rw [(TokenStream.lockstep_reline line).head rfl, hhead]
  rfl

/-- What is read of a text without an error, and of another text behind it. -/
theorem statements_ofText_append {source other : String} {statements : List (Stmt Unit)}
    (h : (TokenStream.ofText source).statements (depth + 1) =
      statements.map .ok ++ [.ok .endMarker])
    (hbodies : ∀ statement ∈ statements, statement.lacksBody = false)
    (hnext : (∃ last ∈ statements.getLast?, last.awaitsElse = true) →
      Next (fun kind => kind ≠ .kwElse) (.ofText other)) :
    (TokenStream.ofText (source ++ "\n" ++ other)).statements (depth + 1) =
      statements.map .ok ++ ((TokenStream.ofText other).statements (depth + 1)).map
        (relineItem (· + (TokenStream.ofText source).lastLine)) := by
  rw [ofText_append_of_statements h other, statements_join (TokenStream.genuine_ofText source)
    (TokenStream.genuine_reline (TokenStream.genuine_ofText other) _)
    (fun hlast => (hnext hlast).reline _) h hbodies, TokenStream.statements_reline]

end Listing

end Grammar

end Lox
