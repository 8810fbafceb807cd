import Lox.Proofs.Decimal.ReadingBack
import Lox.Proofs.Grammar.Rewording
import Lox.Proofs.Layout.Formatting
import Lox.Proofs.Layout.Rereading

/-!
# Program text reads back

The statements of a text are written as program text. Reading this text gives the same statements
apart from lines, and writing those gives the same text again. If the text had no error, then its
tokens are those of the program text, apart from lines and from the spelling of numbers.
-/
namespace Lox
open Grammar Lexer

section Numbers

theorem isDigit_of_isDigit {c : Char} (h : c.isDigit = true) : Lexer.isDigit c = true := by
  simp only [Char.isDigit, Bool.and_eq_true, decide_eq_true_eq, ge_iff_le,
    UInt32.le_iff_toNat_le] at h
  simp only [Lexer.isDigit, Bool.and_eq_true, decide_eq_true_eq]
  exact h

/-- In program text a finite double is a numeral of the lexical grammar. -/
theorem source_text_eq_numeralText {code : Nat} (h : code < Decimal.infinityCode) :
    Decimal.Layout.source.text (Decimal.ofCode code h) = String.ofList
      (numeralText (Decimal.shortest code).split.1 (Decimal.shortest code).split.2) := by
  rw [Decimal.source_text_ofCode]
  unfold Decimal.Digits.plain numeralText
  cases (Decimal.shortest code).split with
  | mk whole digits => cases digits <;> rfl

/-- The digits of that numeral. -/
theorem isDigit_split_shortest (code : Nat) :
    (∀ c ∈ (Decimal.shortest code).split.1, Lexer.isDigit c = true) ∧
      ∀ c ∈ (Decimal.shortest code).split.2, Lexer.isDigit c = true := by
  obtain ⟨-, hwhole, hdigits⟩ := Decimal.digits_split_shortest code
  exact ⟨fun c hc => isDigit_of_isDigit (hwhole c hc), fun c hc => isDigit_of_isDigit (hdigits c hc)⟩

/-- The text of the shortest decimal of a finite double is a token for the double. -/
theorem lexeme_source {code : Nat} (h : code < Decimal.infinityCode) :
    Lexeme (Decimal.Layout.source.text (Decimal.ofCode code h)).toList
      (.ok (.number, some (.number (Decimal.ofCode code h)))) := by
  obtain ⟨hwhole, hdigits⟩ := isDigit_split_shortest code
  obtain ⟨other, hother, hnearest, heq⟩ :=
    Decimal.ofNumeral_eq_some_iff.mp (Decimal.ofNumeral_shortest h)
  rw [source_text_eq_numeralText, String.toList_ofList, heq]
  exact .number (Decimal.digits_split_shortest code).1 hwhole hdigits hnearest hother

/-- The numbers of the lexical grammar are finite doubles. -/
theorem exists_code_of_lexeme {text : List Char} {literal : Option Atom}
    (h : Lexeme text (.ok (.number, literal))) : ∃ (code : Nat) (hfinite : code < Decimal.infinityCode),
      literal = some (.number (Decimal.ofCode code hfinite)) := by
  generalize hfound : (Except.ok (Kind.number, literal) : Except LexicalError.Cause _) = found at h
  cases h with
  | symbol hmem =>
    have hall : symbols.all (fun entry => entry.2 != .number) = true := by decide
    cases hfound
    exact absurd (List.all_eq_true.mp hall _ hmem) (by simp)
  | keyword hmem =>
    have hall : keywords.all (fun entry => entry.2 != .number) = true := by decide
    cases hfound
    exact absurd (List.all_eq_true.mp hall _ hmem) (by simp)
  | identifier | string | tooGreat => cases hfound
  | number hne hwhole hdigits hnearest hfinite =>
    cases hfound
    exact ⟨_, hfinite, rfl⟩

/-- A token as the formatter writes it, on no line in particular. -/
def Rewording.plain : Rewording where
  token t :=
    { t with
      lexeme := if t.kind = .number then (t.literal.getD .nil).source else t.lexeme
      line := 0 }
  line _ := 0
  kind _ := rfl
  literal _ := rfl
  lexeme t h := by simp [h]

/-- The numbers of the lexical grammar can be written with the shortest decimals. -/
theorem Token.Lexical.plain {t : Token} (h : t.Lexical) : (Rewording.plain.token t).Plain := by
  refine ⟨?_, fun hkind => if_pos hkind⟩
  obtain ⟨kind, lexeme, literal, line⟩ := t
  by_cases hkind : kind = .number
  · subst hkind
    obtain ⟨code, hfinite, rfl⟩ := exists_code_of_lexeme h
    exact lexeme_source hfinite
  · simpa [Token.Lexical, Rewording.plain, hkind] using h

end Numbers

section Programs
variable {limit : Nat}

/-- The program texts of statements that are not too high are their lines. -/
theorem Stmt.mapM_format : ∀ ss : List (Stmt Unit), (∀ s ∈ ss, s ≠ .endMarker ∧ s.height ≤ limit) →
    ss.mapM (Stmt.format limit) = Stmt.lines 0 ss
  | [], _ => rfl
  | s :: ss, h => by
    obtain ⟨⟨hend, hheight⟩, hrest⟩ := List.forall_mem_cons.mp h
    have hindent : ∀ text : String, indentation 0 ++ text = text := fun text => String.empty_append
    rw [List.mapM_cons, Stmt.lines_cons hend, Stmt.format_of_ne hend, if_pos hheight,
      Stmt.mapM_format ss hrest]
    simp only [hindent]

/-- The program text of statements, with the end of the input behind them. -/
theorem formatProgram_eq {d : Statements} (hplain : ∀ t ∈ d.yield, t.Plain)
    (hheight : ∀ s ∈ d.trees, s.height ≤ limit) :
    ∃ text : String, Stmt.formatProgram limit (d.trees ++ [.endMarker]) = .ok text ∧
      Inscribed d.yield text.toList := by
  obtain ⟨lines, hlines, -, hne, htext⟩ := d.formatted 0 hplain
  have hall : ∀ s ∈ d.trees, s ≠ .endMarker ∧ s.height ≤ limit := fun s hs =>
    ⟨d.ne_endMarker hplain s hs, hheight s hs⟩
  have hkept : lines.filter (· ≠ "") = lines :=
    List.filter_eq_self.mpr fun line hline => decide_eq_true (hne line hline)
  refine ⟨"\n".intercalate lines, ?_, htext⟩
  have htexts : (d.trees ++ [Stmt.endMarker]).mapM (Stmt.format limit) = .ok (lines ++ [""]) := by
    rw [List.mapM_append, Stmt.mapM_format d.trees hall, hlines]
    rfl
  have hfilter : (lines ++ [""]).filter (· ≠ "") = lines := by
    rw [List.filter_append, hkept]
    simp
  rw [Stmt.formatProgram, htexts]
  exact congrArg (fun texts => Except.ok ("\n".intercalate texts)) hfilter

end Programs

/-- Tokens of the same kind with the same literal. Only numbers may be spelled differently. -/
structure Token.Same (t other : Token) : Prop where
  kind : other.kind = t.kind
  literal : other.literal = t.literal
  lexeme : t.kind ≠ .number → other.lexeme = t.lexeme

section Reading
variable {line : Int → Int}

/-- What is the same as statements on other lines are statements. -/
theorem exists_statements_of_reline : ∀ {items : List Item} {statements : List (Stmt Unit)},
    items.map (relineItem line) = statements.map .ok → ∃ others : List (Stmt Unit),
      items = others.map .ok ∧ others.map (Stmt.respell (.lines line) none) = statements
  | [], [], _ => ⟨[], rfl, rfl⟩
  | .ok other :: items, statement :: statements, h => by
    obtain ⟨hfirst, hrest⟩ := List.cons.inj h
    obtain ⟨others, rfl, rfl⟩ := exists_statements_of_reline hrest
    cases hfirst
    exact ⟨other :: others, rfl, rfl⟩
  | .error _ :: _, _ :: _, h => by cases h
  | [], _ :: _, h => by cases h
  | _ :: _, [], h => by cases h

/-- What is the same as plain tokens on other lines are tokens. -/
theorem exists_tokens_of_reline : ∀ {outcomes : List (Except LexicalError Token)} {tokens : List Token},
    outcomes.map (relineHead fun _ => 0) = (tokens.map Rewording.plain.token).map .ok →
      ∃ others : List Token, outcomes = others.map .ok ∧ List.Forall₂ Token.Same tokens others
  | [], [], _ => ⟨[], rfl, .nil⟩
  | .ok other :: outcomes, token :: tokens, h => by
    obtain ⟨hfirst, hrest⟩ := List.cons.inj h
    obtain ⟨others, rfl, hothers⟩ := exists_tokens_of_reline hrest
    have hother : other.reline (fun _ => 0) = Rewording.plain.token token := Except.ok.inj hfirst
    have hkind : other.kind = token.kind := (Token.mk.inj hother).1
    have hliteral : other.literal = token.literal := (Token.mk.inj hother).2.2.1
    have hlexeme : token.kind ≠ .number → other.lexeme = token.lexeme := fun hnumber =>
      (Token.mk.inj hother).2.1.trans (if_neg hnumber)
    exact ⟨other :: others, rfl, .cons ⟨hkind, hliteral, hlexeme⟩ hothers⟩
  | .error _ :: _, _ :: _, h => by cases h
  | [], _ :: _, h => by cases h
  | _ :: _, [], h => by cases h

end Reading

section Rereading
variable {d : Statements} {depth : Nat} {text : String}

/-- The text of the tokens of statements is scanned as these tokens, apart from lines. -/
theorem pending_of_inscribed (hplain : ∀ t ∈ (d.reword Rewording.plain).yield, t.Plain)
    (htext : Inscribed (d.reword Rewording.plain).yield text.toList) :
    (TokenStream.ofText text).pending.map (relineHead fun _ => 0) =
      (d.yield.map Rewording.plain.token).map .ok := by
  have htokens := htext.writes.scan (fun t ht => (hplain t ht).lexical) 1
  rw [d.yield_reword Rewording.plain, List.map_map] at htokens
  rw [List.map_map]
  exact htokens

/-- The text of the tokens of statements is read as these statements, apart from lines. -/
theorem statements_of_inscribed (hplain : ∀ t ∈ (d.reword Rewording.plain).yield, t.Plain)
    (htext : Inscribed (d.reword Rewording.plain).yield text.toList) (hnear : d.Near)
    (hfits : d.Fits (depth + 1)) :
    ((TokenStream.ofText text).statements (depth + 1)).map (relineItem fun _ => 0) =
      ((d.reword Rewording.plain).trees ++ [Stmt.endMarker]).map .ok := by
  have hstream : (TokenStream.ofText text).reline (fun _ => 0) =
      ⟨(d.reword Rewording.plain).yield.map .ok, 0⟩ := by
    rw [TokenStream.reline, pending_of_inscribed hplain htext, d.yield_reword Rewording.plain]
  have hgenuine := TokenStream.genuine_reline (TokenStream.genuine_ofText text) fun _ => 0
  rw [hstream] at hgenuine
  rw [← TokenStream.statements_reline, hstream, statements_of_derivation _ _ hgenuine
    (d.near_reword _ hnear) (d.fits_reword _ _ hfits), List.map_append]
  rfl

end Rereading

/-- Whatever the errors of a text, its statements are read again from their program text, without an
error and apart from lines; and they have the same program text again. No body of a conditional or a
loop may be missing, and no statement too high to be written. If the text had no error, then the
program text has the tokens of the text, one for one, and only numbers are spelled differently. -/
theorem Stmt.formatProgram_reads_back {source : String} {depth limit : Nat} (hdepth : 0 < depth)
    (hbodies : ∀ s ∈ (TokenStream.ofText source).handedOut depth, s.lacksBody = false)
    (hheight : ∀ s ∈ (TokenStream.ofText source).handedOut depth, s.height ≤ limit) :
    ∃ text : String,
      Stmt.formatProgram limit ((TokenStream.ofText source).handedOut depth) = .ok text ∧
      (∃ again : List (Stmt Unit), (TokenStream.ofText text).statements depth = again.map .ok ∧
        again.map (Stmt.respell (.lines fun _ => 0) none) =
          ((TokenStream.ofText source).handedOut depth).map
            (Stmt.respell (.lines fun _ => 0) none) ∧
        Stmt.formatProgram limit again = .ok text) ∧
      ((∀ item ∈ (TokenStream.ofText source).statements depth, ∃ statement, item = .ok statement) →
        ∃ tokens others : List Token, (TokenStream.ofText source).pending = tokens.map .ok ∧
          (TokenStream.ofText text).pending = others.map .ok ∧
          List.Forall₂ Token.Same tokens others) := by
  obtain ⟨depth, rfl⟩ := Nat.exists_eq_succ_of_ne_zero (Nat.ne_of_gt hdepth)
  obtain ⟨d, hd, hnear, hfits, hmem, hall⟩ :=
    exists_derivation (TokenStream.genuine_ofText source) hbodies
  -- The derivation with the tokens that are written, all of them on one line.
  have hplain : ∀ t ∈ (d.reword Rewording.plain).yield, t.Plain := by
    rw [d.yield_reword Rewording.plain]
    exact List.forall_mem_map.mpr fun t ht => (TokenStream.lexical_of_mem_ofText (hmem t ht)).plain
  have htrees : (d.reword Rewording.plain).trees =
      d.trees.map (Stmt.respell (.lines fun _ => 0) none) := by
    rw [d.trees_reword Rewording.plain none, Stmt.respellAll_eq_map]
    rfl
  have hstatements : ((TokenStream.ofText source).handedOut (depth + 1)).map
      (Stmt.respell (.lines fun _ => 0) none) = (d.reword Rewording.plain).trees ++ [.endMarker] := by
    rw [hd, List.map_append, htrees]
    rfl
  have hheights : ∀ s ∈ (d.reword Rewording.plain).trees, s.height ≤ limit := by
    rw [htrees]
    refine List.forall_mem_map.mpr fun s hs => ?_
    rw [Stmt.height_respell_lines]
    exact hheight s (hd ▸ List.mem_append_left _ hs)
  obtain ⟨text, hformat, htext⟩ := formatProgram_eq hplain hheights
  rw [← hstatements, Stmt.formatProgram_respell_lines] at hformat
  have hagain := statements_of_inscribed hplain htext hnear hfits
  rw [← hstatements] at hagain
  obtain ⟨again, hitems, hsame⟩ := exists_statements_of_reline hagain
  refine ⟨text, hformat, ⟨again, hitems, hsame, ?_⟩, fun hok => ?_⟩
  · rw [← Stmt.formatProgram_respell_lines (fun _ => 0), hsame, Stmt.formatProgram_respell_lines]
    exact hformat
  · obtain ⟨others, hothers, htokens⟩ := exists_tokens_of_reline (pending_of_inscribed hplain htext)
    exact ⟨d.yield, others, hall hok, hothers, htokens⟩

/-- A text on other lines than its program text, whose numbers are spelled in another way. -/
theorem Stmt.formatProgram_reads_back_of_spelling :
    0 < 40 ∧
    (∀ s ∈ (TokenStream.ofText "if(a)if(b)c=- -1.50;else{d(c);}\nprint\nc;").handedOut 40,
      s.lacksBody = false ∧ s.height ≤ 40) ∧
    (∀ item ∈ (TokenStream.ofText "if(a)if(b)c=- -1.50;else{d(c);}\nprint\nc;").statements 40,
      ∃ statement, item = .ok statement) ∧
    ∃ text : String,
      Stmt.formatProgram 40
        ((TokenStream.ofText "if(a)if(b)c=- -1.50;else{d(c);}\nprint\nc;").handedOut 40) =
          .ok text ∧
      (∃ again : List (Stmt Unit), (TokenStream.ofText text).statements 40 = again.map .ok ∧
        Stmt.formatProgram 40 again = .ok text) ∧
      ∃ tokens others : List Token,
        (TokenStream.ofText "if(a)if(b)c=- -1.50;else{d(c);}\nprint\nc;").pending =
          tokens.map .ok ∧
        (TokenStream.ofText text).pending = others.map .ok ∧
        List.Forall₂ Token.Same tokens others := by
  have hall : ((TokenStream.ofText "if(a)if(b)c=- -1.50;else{d(c);}\nprint\nc;").statements
      40).all (fun item => item.toOption.any fun s => !s.lacksBody && decide (s.height ≤ 40)) =
      true := by decide +kernel
  have hitems : ∀ item ∈
      (TokenStream.ofText "if(a)if(b)c=- -1.50;else{d(c);}\nprint\nc;").statements 40,
      ∃ s : Stmt Unit, item = .ok s ∧ s.lacksBody = false ∧ s.height ≤ 40 := by
    intro item hitem
    have hone := List.all_eq_true.mp hall item hitem
    cases item with
    | error e => cases hone
    | ok s => exact ⟨s, rfl, by simpa [Except.toOption] using hone⟩
  have hstatements : ∀ s ∈
      (TokenStream.ofText "if(a)if(b)c=- -1.50;else{d(c);}\nprint\nc;").handedOut 40,
      s.lacksBody = false ∧ s.height ≤ 40 := by
    intro s hs
    obtain ⟨item, hitem, hs⟩ := List.mem_filterMap.mp hs
    obtain ⟨s', rfl, h⟩ := hitems item hitem
    cases hs
    exact h
  have hok : ∀ item ∈
      (TokenStream.ofText "if(a)if(b)c=- -1.50;else{d(c);}\nprint\nc;").statements 40,
      ∃ s : Stmt Unit, item = .ok s := fun item hitem =>
    (hitems item hitem).imp fun _ h => h.1
  obtain ⟨text, hformat, ⟨again, hread, -, hagain⟩, htokens⟩ :=
    Stmt.formatProgram_reads_back (by decide : 0 < 40)
      (fun s hs => (hstatements s hs).1) fun s hs => (hstatements s hs).2
  exact ⟨by decide, hstatements, hok, text, hformat, ⟨again, hread, hagain⟩, htokens hok⟩

end Lox
