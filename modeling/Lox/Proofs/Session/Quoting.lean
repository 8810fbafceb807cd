import Lox.Proofs.Session.Addressing
import Lox.Proofs.Session.Breaking

/-!
# Quoted lines

What a report quotes is the line of that number in the source that is being run. An error of the text
blames a token of that source. A runtime error may blame a token of a source before, in the body of a
function that was declared there, and then the line that is quoted is the right one only if it happens
to read the same.
-/
namespace Lox
open Outcome

/-- No line of the source ends but by a line feed. -/
def OnlyLineFeeds (source : String) : Prop :=
  ∀ c ∈ source.toList, Text.isLineBreak c = true → c = '\n'

theorem onlyLineFeeds_iff {source : String} : OnlyLineFeeds source ↔
    source.toList.all (fun c => !Text.isLineBreak c || c == '\n') = true := by
  simp only [OnlyLineFeeds, List.all_eq_true, Bool.or_eq_true, Bool.not_eq_true', beq_iff_eq,
    or_iff_not_imp_left, Bool.not_eq_false]

/-- A line of a source without the blanks around it, if the source has that line. -/
def lineText (source : String) (line : Int) : Option String :=
  if 0 < line then
    (Text.splitNewlines source.toList)[line.toNat - 1]?.map fun text =>
      String.ofList (Text.strip text)
  else none

theorem Reporter.quote?_withFile {source : String} (h : OnlyLineFeeds source) (r : Reporter)
    (path : String) (line : Int) : (r.withFile path source).quote? line = lineText source line := by
  have hlines := Text.lines_eq_splitNewlines h
  simp only [quote?, withFile, lineText, hlines, List.getElem?_map, Option.map_map, Function.comp_def,
    String.toList_ofList]

theorem Reporter.place?_withFile {source : String} (h : OnlyLineFeeds source) (r : Reporter)
    (path : String) (d : Diagnostic) : (r.withFile path source).place? d =
      d.line.map fun line => ⟨path, line, lineText source line⟩ := by
  cases hline : d.line with
  | none => simp [place?, withFile, hline]
  | some line =>
    have hplace : (r.withFile path source).place? d =
        some ⟨path, line, (r.withFile path source).quote? line⟩ := by
      rw [place?, hline]
      rfl
    rw [hplace, quote?_withFile h]
    rfl

/-- What a report quotes, if anything, is the line of `source` that it names. -/
def Report.Quotes (r : Report) (source : String) : Prop :=
  ∀ place, r.place = some place → ∀ text, place.quote = some text →
    lineText source place.line = some text

/-- Report `r` was made while source number `number` was run, and `a` is the same report with an
address in the place of the line. -/
structure Report.Traced (path : String) (sources : List String) (number : Nat) (a r : Report) : Prop where
  /-- Without the address they say the same. -/
  diagnostic : r.diagnostic = { a.diagnostic with line := a.diagnostic.line.map Address.line }
  /-- The line is quoted from the source that is run. -/
  place : ∃ source, sources[number]? = some source ∧
    r.place = r.diagnostic.line.map fun line => ⟨path, line, lineText source line⟩
  /-- The blamed line is one of this source or of one before. -/
  address : ∀ n, a.diagnostic.line = some n → Session.IsAddress sources n ∧ Address.source n ≤ number
  /-- An error of the text blames the source that is run. -/
  text : a.diagnostic.stage ≠ .runtime → ∀ n, a.diagnostic.line = some n → Address.source n = number

namespace Report.Traced
variable {path : String} {sources : List String} {number : Nat} {a r : Report}

theorem append (h : Traced path sources number a r) (more : List String) :
    Traced path (sources ++ more) number a r where
  diagnostic := h.diagnostic
  place := by
    obtain ⟨source, hsource, hplace⟩ := h.place
    have hlt := (List.getElem?_eq_some_iff.mp hsource).1
    exact ⟨source, (List.getElem?_append_left hlt).trans hsource, hplace⟩
  address := fun n hn => (h.address n hn).imp_left fun haddress => haddress.append more
  text := h.text

/-- When the quoted line is the line that is blamed. -/
theorem quotes_iff (h : Traced path sources number a r) {n : Int} (hn : a.diagnostic.line = some n)
    {running origin : String} (hrunning : sources[number]? = some running) :
    r.Quotes origin ↔ lineText running (Address.line n) = none ∨
      lineText running (Address.line n) = lineText origin (Address.line n) := by
  obtain ⟨source, hsource, hplace⟩ := h.place
  obtain rfl := Option.some.inj (hrunning.symm.trans hsource)
  have hline : r.diagnostic.line = some (Address.line n) := by
    rw [h.diagnostic, hn]
    rfl
  rw [hline] at hplace
  constructor
  · intro hquotes
    cases htext : lineText running (Address.line n) with
    | none => exact .inl rfl
    | some text => exact .inr (hquotes _ hplace text htext).symm
  · intro hsame place hthere text htext
    rw [hplace] at hthere
    cases hthere
    rcases hsame with hnone | hsame
    · cases hnone.symm.trans htext
    · exact hsame.symm.trans htext

end Report.Traced

/-- On other lines an item has the same error of the text. -/
theorem problem?_relineItem {item : Item} (hitem : Item.Regular item) (limits : Limits) (next : Site)
    (line : Int → Int) : problem? limits next (relineItem line item) =
      (problem? limits next item).map fun d => { d with line := d.line.map line } := by
  cases item with
  | error error => exact congrArg some (error.respelled_reline line).eq_of_lines
  | ok statement =>
    have hwithin := hitem.2.number_regular next
    have hproper := Respelling.proper_lines line .regular
    have hspelled := (statement.number next).1.spelled_lines line
    have hnumber := statement.number_respell_lines line none none next
    simp only [relineItem, problem?, hnumber]
    cases hresolve : (statement.number next).1.resolve limits.scoping with
    | mk outcome bindings =>
      cases outcome with
      | ok _ =>
        rw [Stmt.resolve_respell_of_ok hproper hwithin hspelled hresolve]
        rfl
      | error failure =>
        obtain ⟨others, hothers⟩ := Stmt.resolve_respell_of_error hproper hwithin hspelled hresolve
        rw [hothers]
        cases failure <;> rfl

theorem TokenStream.Genuine.regular_of_mem_taken {s : TokenStream} (hs : s.Genuine)
    {depth count : Nat} {item : Item} (h : item ∈ s.taken depth count) : Item.Regular item := by
  induction count generalizing s with
  | zero => cases h
  | succ count ih =>
    rcases List.mem_cons.mp h with rfl | h
    · exact hs.regular_takeStatement depth
    · exact ih (hs.takeStatement depth) h

namespace Session
variable {past : List (Stmt Site)} {limits : Limits} {start s s' t t' : Session} {path : String}
  {sources : List String} {source : String} {count : Nat} {status : Status}

theorem Entered.path_eq {clock : Nat → Float} {reporter : Reporter}
    (hstart : Session.start .interactive path clock reporter = .ok start)
    (h : Entered limits start sources s) : s.path = path := by
  induction h with
  | nothing =>
    cases hstart
    rfl
  | add hs hrun ih =>
    obtain ⟨u, hsteps, rfl⟩ := runStream_eq_ok.mp hrun
    rw [steps_eq_walk] at hsteps
    have hsame := (SameSetting.walk hsteps).2.1
    rw [← ih]
    unfold closed
    split <;> exact hsame

/-- The reports that the steps along a source add. -/
theorem exists_news {stream : TokenStream}
    (h : steps .byDistance limits count stream .ok
      { s with reporter := s.reporter.withFile s.path source } = .ok status t) :
    ∃ news, t.reports = s.reports ++ news ∧
      ∀ r ∈ news, ∃ d, r = (s.reporter.withFile s.path source).report d false ∧ (d.stage = .runtime ∨
        ∃ item ∈ stream.taken limits.nesting count, ∃ next, problem? limits next item = some d) := by
  rw [steps_eq_walk] at h
  exact adds_of_walk h

/-- An error of the text has an address of the text. -/
theorem source_of_problem? {number : Nat} {item : Item} {d : Diagnostic} {n : Int} {next : Site}
    (hitem : item ∈ ((TokenStream.ofText source).reline (address number)).taken limits.nesting count)
    (hproblem : problem? limits next item = some d) (hn : d.line = some n) :
    Address.source n = number := by
  rw [TokenStream.taken_reline] at hitem
  obtain ⟨plain, hplain, rfl⟩ := List.mem_map.mp hitem
  have hregular := (TokenStream.genuine_ofText source).regular_of_mem_taken hplain
  rw [problem?_relineItem hregular] at hproblem
  obtain ⟨d', -, rfl⟩ := Option.map_eq_some_iff.mp hproblem
  obtain ⟨l, -, rfl⟩ := Option.map_eq_some_iff.mp hn
  exact Address.source_address number l

/-- What is reported along a source is traced to it and to the sources before. -/
theorem exists_traced_news {clock : Nat → Float} {reporter : Reporter}
    (hstart : Session.start .interactive path clock reporter = .ok start)
    (haddressed : Addressed limits start sources s')
    (hshows : (Mirror.relined Address.line).Shows past s' s) (hpath : s.path = path)
    (hfeeds : OnlyLineFeeds source)
    (hsteps : steps .byDistance limits count (.ofText source) .ok
      { s with reporter := s.reporter.withFile s.path source } = .ok status t) :
    ∃ t', steps .byDistance limits count
        ((TokenStream.ofText source).reline (address sources.length)) .ok
        { s' with reporter := s'.reporter.withFile s'.path source } = .ok status t' ∧
      (∃ past, (Mirror.relined Address.line).Shows past t' t) ∧
      ∃ news' news, t'.reports = s'.reports ++ news' ∧ t.reports = s.reports ++ news ∧
        List.Forall₂ (Report.Traced path (sources ++ [source]) sources.length) news' news := by
  obtain ⟨t', hsteps', past', hends⟩ := exists_addressed_steps hshows sources.length hsteps
  obtain ⟨news, hnews, hmade⟩ := exists_news hsteps
  obtain ⟨news', hnews', hmade'⟩ := exists_news hsteps'
  refine ⟨t', hsteps', ⟨past', hends⟩, news', news, hnews', hnews, ?_⟩
  -- Both sessions have had the same number of reports before.
  have hpairs := hends.reports
  rw [hnews, hnews'] at hpairs
  have hbehind := List.forall₂_drop s.reports.length hpairs
  rw [List.drop_left, ← hshows.reports.length_eq, List.drop_left] at hbehind
  rw [List.forall₂_iff_zip] at hbehind ⊢
  refine ⟨hbehind.1, fun {a r} hmem => ?_⟩
  obtain ⟨ha, hr⟩ := List.of_mem_zip hmem
  obtain ⟨d, rfl, -⟩ := hmade r hr
  have hdiagnostic := hbehind.2 hmem
  have hsource : (sources ++ [source])[sources.length]? = some source := by simp
  have hplace := Reporter.place?_withFile hfeeds s.reporter s.path d
  rw [hpath] at hplace ⊢
  refine ⟨hdiagnostic, ⟨source, hsource, hplace⟩, fun n hn => ?_, fun hstage n hn => ?_⟩
  · have hmember : a ∈ t'.reports := hnews' ▸ List.mem_append_right _ ha
    have haddress := haddressed.isAddress hstart hsteps' hmember hn
    refine ⟨haddress, ?_⟩
    obtain ⟨origin, horigin, -⟩ := haddress
    have hlt := (List.getElem?_eq_some_iff.mp horigin).1
    rw [List.length_append, List.length_singleton] at hlt
    omega
  · obtain ⟨d', rfl, hfrom⟩ := hmade' a ha
    rcases hfrom with hruntime | ⟨item, hitem, next, hproblem⟩
    · exact absurd hruntime hstage
    · exact source_of_problem? hitem hproblem hn

/-- Every session has a twin whose tokens have addresses, and its reports can be traced through it. -/
theorem Entered.exists_addressed {clock : Nat → Float} {reporter : Reporter}
    (hstart : Session.start .interactive path clock reporter = .ok start)
    (h : Entered limits start sources s) (hfeeds : ∀ source ∈ sources, OnlyLineFeeds source) :
    ∃ s', Addressed limits start sources s' ∧
      (∃ past, (Mirror.relined Address.line).Shows past s' s) ∧
      List.Forall₂ (fun a r => ∃ number, Report.Traced path sources number a r)
        s'.reports s.reports := by
  induction h with
  | nothing =>
    refine ⟨start, .nothing, ⟨[], start_shows hstart _⟩, ?_⟩
    cases hstart
    exact .nil
  | @add sources source status s t hs hrun ih =>
    obtain ⟨s', haddressed, ⟨past, hshows⟩, hold⟩ :=
      ih fun other hother => hfeeds other (List.mem_append_left _ hother)
    obtain ⟨u, hsteps, rfl⟩ := runStream_eq_ok.mp hrun
    have hfeeds' := hfeeds source (List.mem_append_right _ List.mem_cons_self)
    obtain ⟨u', hsteps', ⟨past', hends⟩, news', news, hnews', hnews, htraced⟩ :=
      exists_traced_news hstart haddressed hshows (hs.path_eq hstart) hfeeds' hsteps
    have hrun' : runAddressed limits sources.length source s' = .ok status u'.closed := by
      refine runStream_eq_ok.mpr ⟨u', ?_, rfl⟩
      rw [remaining_reline]
      exact hsteps'
    refine ⟨u'.closed, haddressed.add hrun', ⟨past', hends.closed⟩, ?_⟩
    rw [reports_closed, reports_closed, hnews, hnews']
    refine List.rel_append (hold.imp fun _ _ => ?_) (htraced.imp fun _ _ hnew => ⟨_, hnew⟩)
    rintro ⟨number, htraced⟩
    exact ⟨number, htraced.append _⟩

/-- Every report of an interactive session, also while the last source is still being run, is made
from a line of the source that is being run, while the token that it blames may stand in a source
before if the error is a runtime error. The right line is quoted exactly if both lines read the same. -/
theorem quotes_iff_same_line {clock : Nat → Float} {reporter : Reporter}
    (hstart : Session.start .interactive path clock reporter = .ok start)
    (h : Entered limits start sources s) (hfeeds : ∀ other ∈ sources ++ [source], OnlyLineFeeds other)
    (hsteps : steps .byDistance limits count (.ofText source) .ok
      { s with reporter := s.reporter.withFile s.path source } = .ok status t) :
    ∃ s' t', Addressed limits start sources s' ∧
      steps .byDistance limits count
        ((TokenStream.ofText source).reline (address sources.length)) .ok
        { s' with reporter := s'.reporter.withFile s'.path source } = .ok status t' ∧
      List.Forall₂ (fun a r => ∃ number,
        Report.Traced path (sources ++ [source]) number a r ∧
        ∀ n, a.diagnostic.line = some n → ∀ running origin,
          (sources ++ [source])[number]? = some running →
          (sources ++ [source])[Address.source n]? = some origin →
          (r.Quotes origin ↔ lineText running (Address.line n) = none ∨
            lineText running (Address.line n) = lineText origin (Address.line n)))
        t'.reports t.reports := by
  have hbefore : ∀ other ∈ sources, OnlyLineFeeds other :=
    fun other hother => hfeeds other (List.mem_append_left _ hother)
  have hlast := hfeeds source (List.mem_append_right _ List.mem_cons_self)
  obtain ⟨s', haddressed, ⟨past, hshows⟩, hold⟩ := h.exists_addressed hstart hbefore
  obtain ⟨t', hsteps', -, news', news, hnews', hnews, htraced⟩ :=
    exists_traced_news hstart haddressed hshows (h.path_eq hstart) hlast hsteps
  refine ⟨s', t', haddressed, hsteps', ?_⟩
  have hall : List.Forall₂ (fun a r => ∃ number, Report.Traced path (sources ++ [source]) number a r)
      t'.reports t.reports := by
    rw [hnews, hnews']
    refine List.rel_append (hold.imp fun _ _ => ?_) (htraced.imp fun _ _ hnew => ⟨_, hnew⟩)
    rintro ⟨number, htraced⟩
    exact ⟨number, htraced.append _⟩
  refine hall.imp fun a r => ?_
  rintro ⟨number, htraced⟩
  exact ⟨number, htraced, fun n hn running origin hrunning _ => htraced.quotes_iff hn hrunning⟩

/-- A function whose call fails on its second line. -/
def failingFunction : String :=
  "fun f() \x7b\n return -nil;\n\x7d"

/-- A call of it on the third line of another source. -/
def failingCall : String :=
  "var x;\nprint x;\nf();"

/-- The new session in which the function has been declared, its tokens with lines or addresses. -/
def declared (addressed : Bool) : Session :=
  final (if addressed then runAddressed .standard 0 failingFunction fresh
    else runSource .standard failingFunction .byDistance fresh)

theorem entered_declared : Entered .standard fresh [failingFunction] (declared false) := by
  have hrun : answer? (runSource .standard failingFunction .byDistance fresh) = some .ok := by
    decide +kernel
  obtain ⟨s, hs⟩ := answer?_eq_some.mp hrun
  have hdeclared : declared false = s := congrArg final hs
  exact hdeclared ▸ Entered.nothing.add hs

theorem addressed_declared : Addressed .standard fresh [failingFunction] (declared true) := by
  have hrun : answer? (runAddressed .standard 0 failingFunction fresh) = some .ok := by
    decide +kernel
  obtain ⟨s, hs⟩ := answer?_eq_some.mp hrun
  have hdeclared : declared true = s := congrArg final hs
  exact hdeclared ▸ Addressed.nothing.add hs

theorem onlyLineFeeds_failing :
    ∀ source ∈ [failingFunction] ++ [failingCall], OnlyLineFeeds source := by
  have hfunction : failingFunction.toList.all (fun c => !Text.isLineBreak c || c == '\n') = true := by
    decide +kernel
  have hcall : failingCall.toList.all (fun c => !Text.isLineBreak c || c == '\n') = true := by
    decide +kernel
  intro source hsource
  rcases List.mem_pair.mp hsource with rfl | rfl
  · exact onlyLineFeeds_iff.mpr hfunction
  · exact onlyLineFeeds_iff.mpr hcall

theorem quotes_iff_same_line_of_call :
    ∃ t, steps .byDistance .standard 4 (.ofText failingCall) .ok
        { declared false with
          reporter := (declared false).reporter.withFile (declared false).path failingCall } =
        .ok .runtimeError t ∧
      ∃ s' t' : Session, Addressed .standard fresh [failingFunction] s' ∧
        List.Forall₂ (fun a r => ∃ number,
          Report.Traced "<in>" [failingFunction, failingCall] number a r) t'.reports t.reports := by
  have hrun : answer? (steps .byDistance .standard 4 (.ofText failingCall) .ok
      { declared false with
        reporter := (declared false).reporter.withFile (declared false).path failingCall }) =
      some .runtimeError := by decide +kernel
  obtain ⟨t, ht⟩ := answer?_eq_some.mp hrun
  obtain ⟨s', t', haddressed, -, hreports⟩ :=
    quotes_iff_same_line start_fresh entered_declared onlyLineFeeds_failing ht
  exact ⟨t, ht, s', t', haddressed, hreports.imp fun _ _ ⟨number, htraced, _⟩ => ⟨number, htraced⟩⟩

/-- The call quotes its own second line, and blames the second line of the function. -/
theorem failingCall_misquotes :
    ∃ t t', Entered .standard fresh [failingFunction, failingCall] t ∧
      Addressed .standard fresh [failingFunction, failingCall] t' ∧
      t'.reports.map (·.diagnostic.line) = [some (address 0 2)] ∧
      lineText failingFunction 2 = some "return -nil;" ∧
      ∃ r, t.reports = [r] ∧ r.place = some ⟨"<in>", 2, some "print x;"⟩ ∧
        ¬ r.Quotes failingFunction := by
  have hrun : answer? (runSource .standard failingCall .byDistance (declared false)) =
      some .runtimeError := by decide +kernel
  have hrun' : answer? (runAddressed .standard 1 failingCall (declared true)) =
      some .runtimeError := by decide +kernel
  have hreports : (final (runSource .standard failingCall .byDistance (declared false))).reports =
      [⟨some ⟨"<in>", 2, some "print x;"⟩, false,
        ⟨.runtime, "operand must be a number", some 2⟩⟩] := by decide +kernel
  have hline : (final (runAddressed .standard 1 failingCall (declared true))).reports.map
      (·.diagnostic.line) = [some (address 0 2)] := by decide +kernel
  have htext : lineText failingFunction 2 = some "return -nil;" := by decide +kernel
  obtain ⟨t, ht⟩ := answer?_eq_some.mp hrun
  obtain ⟨t', ht'⟩ := answer?_eq_some.mp hrun'
  rw [ht] at hreports
  rw [ht'] at hline
  refine ⟨t, t', entered_declared.add ht, addressed_declared.add ht', hline, htext, _, hreports, rfl,
    fun hquotes => ?_⟩
  have hquoted := hquotes _ rfl _ rfl
  rw [htext] at hquoted
  exact absurd hquoted (by decide)

end Session

end Lox
