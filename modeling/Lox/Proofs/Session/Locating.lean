import Lox.Proofs.Session.Addressing
import Lox.Proofs.Session.Breaking
import Lox.Proofs.Text.Rows
import Lox.Proofs.Text.Stripping
import Lox.Proofs.Token.Positions

/-!
# Blamed rows and quoted lines

A report blames a token by the row in which it ends, and quotes the line of the same number. Before
the first broken row both are counted alike, and no more can go wrong than that the row has something
else than blanks behind its first boundary. Behind a broken row what is quoted is a piece of a row
before.
-/
namespace Lox
open Outcome

namespace Report

/-- What a report quotes, if anything, is a row without the blanks around it. -/
def QuotesRow (r : Report) (row : List Char) : Prop :=
  ∀ place, r.place = some place → ∀ text, place.quote = some text →
    text = String.ofList (Text.strip row)

/-- Report `r` names row number `index` of `rows`, which is `row`, and quotes a line for it. -/
inductive FromRow (path : String) (rows : List (List Char)) (index : Nat) (row : List Char)
    (r : Report) : Prop where
  /-- No row before is broken: it is right up to the first boundary in the row. -/
  | aligned {quote : Option String} (h : ∀ earlier ∈ rows.take index, Text.Unbroken earlier)
    (hplace : r.place = some ⟨path, index + 1, quote⟩)
    (hright : r.QuotesRow row ↔ ∀ c ∈ Text.remainder row, Text.isBlank c)
  /-- Some row before is broken: it is a piece of a row before. -/
  | shifted {earlier piece : List Char} (h : ∃ earlier ∈ rows.take index, ¬ Text.Unbroken earlier)
    (hearlier : earlier ∈ rows.take index) (hpiece : piece <:+: earlier)
    (hplace : r.place = some ⟨path, index + 1, some (String.ofList (Text.strip piece))⟩)
    (hright : r.QuotesRow row ↔ Text.strip piece = Text.strip row)

/-- Report `r` was made while `source` was run, and `a` is the same report with a position in the place
of the line. -/
structure Located (path source : String) (a r : Report) : Prop where
  /-- Without the position they say the same, and the line is the one that the position is on. -/
  diagnostic : r.diagnostic =
    { a.diagnostic with line := a.diagnostic.line.map (Lexer.lineAt source.toList) }
  /-- What is blamed ends at the position. -/
  position : ∀ n, a.diagnostic.line = some n → TokenStream.EndsAt source n
  /-- What is quoted for the row with the position. -/
  row : ∀ n, a.diagnostic.line = some n → ∃ (index : Nat) (row : List Char),
    Lexer.lineAt source.toList n = index + 1 ∧ (Text.rows source.toList)[index]? = some row ∧
      r.FromRow path (Text.rows source.toList) index row

section Quoting
variable {r : Report} {path : String} {line : Int} {quote : Option String} {index : Nat}
  {text row piece : List Char}

theorem quotesRow_iff (hplace : r.place = some ⟨path, line, quote⟩) :
    r.QuotesRow row ↔ ∀ text, quote = some text → text = String.ofList (Text.strip row) := by
  constructor
  · exact fun h => h _ hplace
  · intro h place hthere
    cases hplace.symm.trans hthere
    exact h

theorem quotesRow_of_quote
    (hplace : r.place = some ⟨path, line, some (String.ofList (Text.strip piece))⟩) :
    r.QuotesRow row ↔ Text.strip piece = Text.strip row := by
  rw [quotesRow_iff hplace]
  constructor
  · exact fun h => String.ofList_inj.mp (h _ rfl)
  · intro h text htext
    cases htext
    exact congrArg String.ofList h

/-- The line of the same number is quoted for a row. -/
theorem fromRow_of_place (hrow : (Text.rows text)[index]? = some row)
    (hplace : r.place = some ⟨path, index + 1,
      (Text.lines text)[index]?.map fun line => String.ofList (Text.strip line)⟩) :
    r.FromRow path (Text.rows text) index row := by
  by_cases h : ∀ earlier ∈ (Text.rows text).take index, Text.Unbroken earlier
  · refine .aligned h hplace ?_
    obtain hlead | ⟨rfl, hnone⟩ := Text.getElem?_lines_of_unbroken hrow h
    · rw [hlead] at hplace
      have hsplit : Text.strip (Text.lead row ++ Text.remainder row) = Text.strip (Text.lead row) ↔
          ∀ c ∈ Text.remainder row, Text.isBlank c := Text.strip_append_eq_iff
      rw [Text.lead_append_remainder] at hsplit
      rw [quotesRow_of_quote hplace, eq_comm, hsplit]
    · rw [hnone] at hplace
      rw [quotesRow_iff hplace]
      exact ⟨fun _ => nofun, fun _ => nofun⟩
  · push Not at h
    have hindex := (List.getElem?_eq_some_iff.mp hrow).1
    obtain ⟨earlier, hearlier, piece, hpiece, hline⟩ := Text.getElem?_lines_of_broken hindex h
    rw [hline] at hplace
    exact .shifted h hearlier hpiece hplace (quotesRow_of_quote hplace)

end Quoting

end Report

theorem Reporter.place?_withFile_of_line (r : Reporter) (path source : String) {d : Diagnostic}
    {index : Nat} (hline : d.line = some (index + 1 : Int)) : (r.withFile path source).place? d =
      some ⟨path, index + 1,
        (Text.lines source.toList)[index]?.map fun line => String.ofList (Text.strip line)⟩ := by
  have hpos : (0 : Int) < index + 1 := by omega
  have hindex : ((index : Int) + 1).toNat - 1 = index := by omega
  simp only [place?, withFile, hline, quote?, if_pos hpos, hindex, List.getElem?_map, Option.map_map,
    Function.comp_def, String.toList_ofList]

theorem TokenStream.endsAt_of_mentions {source : String} {n : Int}
    (h : (positioned source).Mentions n) : EndsAt source n := by
  rcases h with rfl | ⟨answer, hmem, hline⟩
  · exact .text
  · cases answer with
    | ok token => exact hline ▸ .token hmem (suffix_of_mem_positioned hmem)
    | error error => exact hline ▸ .error hmem

/-- Every position is in some row. -/
theorem Lexer.exists_row_of_position (text : List Char) (n : Int) :
    ∃ (index : Nat) (row : List Char), lineAt text n = index + 1 ∧
      (Text.rows text)[index]? = some row := by
  have hlt : (text.take n.toNat).count '\n' < (Text.rows text).length := by
    rw [Text.length_rows]
    exact Nat.lt_succ_of_le ((List.take_sublist _ _).count_le _)
  exact ⟨_, _, Int.add_comm _ _, List.getElem?_eq_getElem hlt⟩

namespace Session
variable {upkeep : Upkeep} {limits : Limits} {s t : Session} {source : String}

/-- Runs a stream while `source` is quoted. -/
def runQuoting (limits : Limits) (source : String) (stream : TokenStream) : SessionM Status := do
  quoteFrom source
  runStream limits stream

/-- Runs a source whose tokens have positions in the place of lines. -/
def runPositioned (limits : Limits) (source : String) : SessionM Status :=
  runQuoting limits source (TokenStream.positioned source)

/-- Nothing is reported of an item at which the session is interrupted. -/
theorem reports_of_handle_error {item : Item} {run : Bool} {interruption : Interruption}
    (h : handle upkeep limits item run s = .error interruption t) : t.reports = s.reports := by
  cases item with
  | error error => cases h
  | ok statement =>
    simp only [handle, perform] at h
    split at h
    · cases h
    · cases h
      rfl
    · split at h
      · unfold settle at h
        split at h
        · split at h <;> cases h
        · cases h
        · cases h
          rfl
        · cases h
          rfl
      · cases h

/-- A stream is run, to its end or until it is interrupted, by a walk along its items. -/
theorem reports_runQuoting (stream : TokenStream) :
    (final (runQuoting limits source stream s)).reports =
      (final (walk .forgetting limits (stream.taken limits.nesting (stream.remaining + 1)) .ok
        { s with reporter := s.reporter.withFile s.path source })).reports := by
  simp only [runQuoting, quoteFrom, modify_bind_apply, runStream, steps_eq_walk]
  rw [bind_apply]
  cases walk .forgetting limits (stream.taken limits.nesting (stream.remaining + 1)) .ok
      { s with reporter := s.reporter.withFile s.path source } with
  | error interruption t => rfl
  | ok status t => exact reports_closed t

end Session

namespace Mirror
open Session
variable {M : Mirror} {past : List (Stmt Site)} {limits : Limits} {s t : Session}
  {line : Int → Int}

/-- Reports correspond however the walks end. -/
theorem Shows.reports_walk (h : M.Shows past s t) {items others : List Item}
    (hitems : M.Walks limits s.nextSite items others) (status : Status) :
    List.Forall₂ M.reports (final (Session.walk .forgetting limits items status s)).reports
      (final (Session.walk M.upkeep limits others status t)).reports := by
  induction items generalizing others past s t status with
  | nil =>
    cases hitems
    exact h.reports
  | cons item items ih =>
    cases hitems with
    | @cons _ _ other _ others hitem hrest =>
      rw [walk_cons rfl, walk_cons rfl, h.mode]
      generalize (decide (s.mode = .interactive) || decide (status = .ok)) = run
      have hfirst := h.handle hitem limits run
      cases hhandle : Session.handle .forgetting limits item run s with
      | error interruption s' =>
        cases hother : Session.handle M.upkeep limits other run t with
        | error interruption' t' =>
          simp only [final, reports_of_handle_error hhandle, reports_of_handle_error hother]
          exact h.reports
        | ok ended t' =>
          rw [hhandle, hother] at hfirst
          exact hfirst.elim
      | ok ended s' =>
        cases hother : Session.handle M.upkeep limits other run t with
        | error interruption t' =>
          rw [hhandle, hother] at hfirst
          exact hfirst.elim
        | ok ended' t' =>
          rw [hhandle, hother] at hfirst
          obtain ⟨rfl, past', h'⟩ := hfirst
          rw [← handle_nextSite hhandle] at hrest
          cases ended with
          | done => exact h'.reports
          | ok | grammarError => exact ih h' hrest _
          | runtimeError =>
            simp only
            split
            · exact h'.reports
            · exact ih h' hrest _

/-- A session on other lines in which `reporter` makes the reports. -/
def reportedBy (reporter : Reporter) (line : Int → Int) : Mirror :=
  { relined line with
    reporters := fun _ r => r = reporter
    reports := fun a b =>
      b = reporter.report { a.diagnostic with line := a.diagnostic.line.map line } false
    report := by
      rintro r r' d d' rfl hd
      rw [hd.eq_of_lines]
      rfl }

/-- Where nothing has been reported, another reporter may be taken. -/
theorem Shows.reportedBy (h : (relined line).Shows past s t) (hreports : s.reports = [])
    (r reporter : Reporter) : (Mirror.reportedBy reporter line).Shows past
      { s with reporter := r } { t with reporter } :=
  { h with
    reports := by
      have hnone := h.reports
      rw [hreports, List.forall₂_nil_left_iff] at hnone
      simp only [hreports, hnone]
      exact .nil
    reporter := rfl }

end Mirror

namespace Session
open Mirror
variable {mode : Mode} {path : String} {clock : Nat → Float} {reporter : Reporter} {limits : Limits}
  {s : Session} {source : String}

/-- The reports of a source, and those of the same source on other lines. -/
theorem reports_reline {M : Mirror} {past : List (Stmt Site)} {line : Int → Int} (limits : Limits)
    (hlines : M.respelling = .lines line) (hforms : M.forms = .regular)
    (hupkeep : M.upkeep = .forgetting) {stream : TokenStream} (hstream : stream.Genuine)
    (h : M.Shows past { s with reporter := s.reporter.withFile s.path source }
      { s with reporter := s.reporter.withFile s.path source }) :
    List.Forall₂ M.reports (final (runQuoting limits source stream s)).reports
      (final (runQuoting limits source (stream.reline line) s)).reports := by
  have hitems : M.Walks limits s.nextSite _ _ :=
    walks_reline hlines hforms hstream (stream.remaining + 1) s.nextSite
  have hwalk := h.reports_walk hitems .ok
  rw [hupkeep, ← TokenStream.taken_reline] at hwalk
  rw [reports_runQuoting, reports_runQuoting, remaining_reline]
  exact hwalk

/-- What a report blames ends at its position. -/
theorem endsAt_of_mem_reports (hstart : Session.start mode path clock reporter = .ok s)
    {r : Report} (hr : r ∈ (final (runPositioned limits source s)).reports) {n : Int}
    (hn : r.diagnostic.line = some n) : TokenStream.EndsAt source n := by
  refine TokenStream.endsAt_of_mentions (line_of_left_alone (fun line hline => ?_) hr hn)
  have hshows : (relined line).Shows [] s s := .start hstart trivial rfl trivial
  have hreporters : (relined line).reporters (s.reporter.withFile s.path source)
    (s.reporter.withFile s.path source) := trivial
  have hpairs := reports_reline limits rfl rfl rfl (TokenStream.genuine_positioned source)
    (hshows.quoted hreporters)
  have hsame : (TokenStream.positioned source).reline line = TokenStream.positioned source :=
    calc (TokenStream.positioned source).reline line
        = (TokenStream.positioned source).reline id := TokenStream.reline_congr hline
      _ = TokenStream.positioned source := TokenStream.reline_id _
  rw [hsame] at hpairs
  exact hpairs

/-- Every report of a source that is run in a new session names the row in which something of the
source ends, the token that it blames. If no row before is broken, then what is quoted is right
exactly if the row has nothing but blanks behind its first boundary; if one is, then a piece of a row
before is quoted. -/
theorem reports_located (hstart : Session.start mode path clock reporter = .ok s) (limits : Limits)
    (source : String) : List.Forall₂ (Report.Located path source)
      (final (runPositioned limits source s)).reports
      (final (runSource limits source .byDistance s)).reports := by
  have hpath : s.path = path := by
    cases mode with
    | script => exact (start_script_eq_ok hstart).2.1
    | interactive =>
      cases hstart
      rfl
  have hshows : (relined (Lexer.lineAt source.toList)).Shows [] s s :=
    .start hstart trivial rfl trivial
  have hquoted := hshows.reportedBy (start_eq_ok hstart).2.2.2 (s.reporter.withFile s.path source)
    (s.reporter.withFile s.path source)
  have hpairs := reports_reline limits rfl rfl rfl (TokenStream.genuine_positioned source) hquoted
  rw [TokenStream.reline_positioned] at hpairs
  rw [List.forall₂_iff_zip] at hpairs ⊢
  refine ⟨hpairs.1, fun {a r} hmem => ?_⟩
  have hr : r = (s.reporter.withFile s.path source).report _ false := hpairs.2 hmem
  have ha : a ∈ (final (runPositioned limits source s)).reports := (List.of_mem_zip hmem).1
  refine ⟨by rw [hr]; rfl, fun n hn => endsAt_of_mem_reports hstart ha hn, fun n hn => ?_⟩
  obtain ⟨index, row, hline, hrow⟩ := Lexer.exists_row_of_position source.toList n
  refine ⟨index, row, hline, hrow, Report.fromRow_of_place hrow ?_⟩
  rw [hr, ← hpath]
  refine Reporter.place?_withFile_of_line _ _ _ ?_
  rw [hn, ← hline]
  rfl

/-- A string with a form feed in it, and an error in the row behind it. -/
def brokenRow : String :=
  "print \"a\x0cb\";\nprint -nil;"

theorem reports_located_of_brokenRow :
    Session.start .interactive "<in>" (fun _ => 0) (.initial true) = .ok fresh ∧
      List.Forall₂ (Report.Located "<in>" brokenRow)
        (final (runPositioned .standard brokenRow fresh)).reports
        (final (runSource .standard brokenRow .byDistance fresh)).reports ∧
      (final (runSource .standard brokenRow .byDistance fresh)).reports.length = 1 :=
  ⟨start_fresh, reports_located start_fresh .standard brokenRow, by decide +kernel⟩

/-- The error is in the second row, and what is quoted for it is the end of the first one. -/
theorem brokenRow_misquotes :
    (Text.rows brokenRow.toList)[1]? = some "print -nil;".toList ∧
      ∃ r, (final (runSource .standard brokenRow .byDistance fresh)).reports = [r] ∧
        r.place = some ⟨"<in>", 2, some "b\";"⟩ ∧ ¬ r.QuotesRow "print -nil;".toList := by
  have hrow : (Text.rows brokenRow.toList)[1]? = some "print -nil;".toList := by decide +kernel
  have hreports : (final (runSource .standard brokenRow .byDistance fresh)).reports =
      [⟨some ⟨"<in>", 2, some "b\";"⟩, false, ⟨.runtime, "operand must be a number", some 2⟩⟩] := by
    decide +kernel
  refine ⟨hrow, _, hreports, rfl, fun hquotes => ?_⟩
  have hquoted := hquotes _ rfl _ rfl
  exact absurd hquoted (by decide +kernel)

end Session

end Lox
