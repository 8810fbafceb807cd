import Lox.CommandLine.Basic
import Lox.Proofs.Handling.Executing
import Lox.Proofs.Handling.Writing
import Lox.Proofs.Session.Histories

/-!
# What becomes of the statements of a text

Whatever the parser hands out is printed, resolved and executed without meeting a node that is not
known. It is written as program text as well, unless the end of the input stands in the place of a
body; a file that ends like this is the only one whose text cannot be written in standard layout.
-/
namespace Lox
open Outcome

/-- What every reader of trees makes of a statement that is no higher than it may be. Numbers are given
to its sites from anywhere on, and it is executed in the machine of any session, whatever is known of
distances. -/
structure Stmt.Handled (limits : Limits) (statement : Stmt Unit) : Prop where
  printed : statement.height ≤ limits.writing →
    ∃ text, statement.print? limits.writing = .ok text
  formatted : statement.height ≤ limits.writing →
    Written statement.lacksBody (statement.format limits.writing)
  resolved : ∀ (next : Site) (depth : Nat) {fault : Fault} {bindings : List Binding},
    (statement.number next).1.resolve depth ≠ (.error (.fault fault), bindings)
  interpreted : ∀ {s : Session}, s.History → ∀ (distances : Distances) (next : Site)
    (rounds depth : Nat) {fault : Fault} {m : Machine},
      Run.interpret rounds depth (statement.number next).1 { s.machine with distances } =
        .error (.fault fault) m → fault = .noSuchScope

namespace Stmt.Within
variable {statement : Stmt Unit} {limit : Nat}

theorem print? (h : statement.Within .regular True none) (hheight : statement.height ≤ limit) :
    ∃ text, statement.print? limit = .ok text := by
  rw [Stmt.print?, if_pos hheight]
  exact statement.written_printed (fun hfaults => hfaults) none h

theorem format (h : statement.Within .regular True none) (hheight : statement.height ≤ limit) :
    Written statement.lacksBody (statement.format limit) := by
  have hsource := statement.written_source (fun hfaults => hfaults) none 0 h
  cases statement with
  | endMarker => exact ⟨"", rfl⟩
  | _ =>
    rw [Stmt.format]
    · rw [if_pos hheight]
      exact hsource
    · exact fun hend => by cases hend

/-- Statements of texts are handled. -/
theorem handled (h : statement.Within .regular True none) (limits : Limits) :
    statement.Handled limits where
  printed := h.print?
  formatted := h.format
  resolved next depth := (h.number_regular next).resolve_ne_fault fun hfaults => hfaults
  interpreted {s} hs distances next rounds depth _ _ hrun := by
    obtain ⟨past, hregular⟩ := hs.regular
    have hwithin : ({ s.machine with distances } : Machine).store.Within .regular := hregular.within
    exact Run.fault_of_interpret (fun hfaults => hfaults) (h.number_regular next) hwithin hrun

end Stmt.Within

theorem TokenStream.Genuine.within_of_mem_taken {s : TokenStream} (hs : s.Genuine) {depth count : Nat}
    {statement : Stmt Unit} (h : (.ok statement : Item) ∈ s.taken depth count) :
    statement.Within .regular True none := by
  induction count generalizing s with
  | zero => cases h
  | succ count ih =>
    rcases List.mem_cons.1 h with hfirst | hrest
    · have hregular := hs.regular_takeStatement depth
      rw [← hfirst] at hregular
      exact hregular.2
    · exact ih (hs.takeStatement depth) hrest

namespace Session
variable {limits : Limits} {depth fuel : Nat} {stream : TokenStream}

/-- What a session that writes out statements has come to: it has stopped at the end of the input in
the place of a body if there is one, and otherwise it has a status. Its reporter is the same. -/
def Listed (lacking : Prop) (s : Session) (r : EStateM.Result Interruption Session Status) : Prop :=
  (final r).reporter = s.reporter ∧
    ((lacking ∧ ∃ t, r = .error (.fault (.unknownStatement .endMarker)) t) ∨
      (¬lacking ∧ ∃ status t, r = .ok status t))

theorem Listed.congr {lacking lacking' : Prop} {s t : Session}
    {r : EStateM.Result Interruption Session Status} (h : Listed lacking s r)
    (hlacking : lacking ↔ lacking') (hreporter : s.reporter = t.reporter) : Listed lacking' t r := by
  rw [Listed, ← hlacking, ← hreporter]
  exact h

/-- Whether the end of the input stands in the place of a body somewhere in some items. -/
def Lacks (items : List Item) : Prop :=
  ∃ statement : Stmt Unit, .ok statement ∈ items ∧ statement.lacksBody = true

theorem lacks_cons_of_lacksBody_eq_false {item : Item} {items : List Item}
    (h : ∀ statement, item = .ok statement → statement.lacksBody = false) :
    Lacks (item :: items) ↔ Lacks items := by
  constructor
  · rintro ⟨statement, hmem, hlacks⟩
    rcases List.mem_cons.1 hmem with hfirst | hrest
    · rw [h statement hfirst.symm] at hlacks
      cases hlacks
    · exact ⟨statement, hrest, hlacks⟩
  · rintro ⟨statement, hmem, hlacks⟩
    exact ⟨statement, List.mem_cons_of_mem _ hmem, hlacks⟩

theorem formatFrom_cons {statement : Stmt Unit} {items : List Item} {status : Status}
    (hend : statement ≠ .endMarker) :
    formatFrom limits (.ok statement :: items) status =
      match statement.format limits.writing with
      | .error fault => throw (.fault fault)
      | .ok text => (do print text; formatFrom limits items status) := by
  cases statement with
  | endMarker => exact absurd rfl hend
  | _ => rfl

theorem listed_formatFrom (hs : stream.Genuine)
    (hheight : ∀ statement : Stmt Unit, (.ok statement : Item) ∈ stream.statementsUpTo depth fuel →
      statement.height ≤ limits.writing) (status : Status) (s : Session) :
    Listed (Lacks (stream.statementsUpTo depth fuel)) s
      (formatFrom limits (stream.statementsUpTo depth fuel) status s) := by
  induction fuel generalizing stream status s with
  | zero =>
    refine ⟨rfl, .inr ⟨?_, status, s, rfl⟩⟩
    rintro ⟨statement, hmem, -⟩
    cases hmem
  | succ fuel ih =>
    have hregular := hs.regular_takeStatement depth
    have hgenuine := hs.takeStatement depth
    cases htake : stream.takeStatement depth with
    | mk item rest =>
      rw [htake] at hregular hgenuine
      by_cases hend : item = .ok .endMarker
      · subst hend
        rw [Grammar.statementsUpTo_of_end htake]
        refine ⟨rfl, .inr ⟨?_, status, s, rfl⟩⟩
        rintro ⟨statement, hmem, hlacks⟩
        obtain rfl : statement = .endMarker := Except.ok.inj (List.mem_singleton.1 hmem)
        cases hlacks
      · rw [Grammar.statementsUpTo_of_ne htake hend] at hheight ⊢
        have hrest := ih hgenuine fun statement hmem => hheight statement (List.mem_cons_of_mem _ hmem)
        cases item with
        | error error =>
          have hlacks : Lacks (.error error :: rest.statementsUpTo depth fuel) ↔
              Lacks (rest.statementsUpTo depth fuel) :=
            lacks_cons_of_lacksBody_eq_false fun _ h => by cases h
          exact (hrest .grammarError (s.reported error.diagnostic)).congr hlacks.symm rfl
        | ok statement =>
          have hwritten := hregular.2.format (hheight statement List.mem_cons_self)
          rw [formatFrom_cons (fun h => hend (congrArg _ h))]
          cases hlacks : statement.lacksBody with
          | true =>
            rw [hlacks] at hwritten
            have herror : statement.format limits.writing =
              .error (.unknownStatement .endMarker) := hwritten
            rw [herror]
            exact ⟨rfl, .inl ⟨⟨statement, List.mem_cons_self, hlacks⟩, s, rfl⟩⟩
          | false =>
            rw [hlacks] at hwritten
            obtain ⟨text, htext⟩ : ∃ text, statement.format limits.writing = .ok text := hwritten
            have hitems : Lacks (.ok statement :: rest.statementsUpTo depth fuel) ↔
                Lacks (rest.statementsUpTo depth fuel) :=
              lacks_cons_of_lacksBody_eq_false fun other hother => Except.ok.inj hother ▸ hlacks
            rw [htext]
            exact (hrest status _).congr hitems.symm rfl

end Session

namespace CommandLine
variable {limits : Limits} {colouring : Colouring} {clock : Nat → Float} {file source : String}
  {contents : Option (List UInt8)}

/-- What is reported when the end of the input stands in the place of a body. -/
def bodyReport : Report :=
  ⟨none, true, ⟨.general, "unknown error: 'TypeError: unknown statement: EndMarker()'", none⟩⟩

theorem reportEscape_endMarker (r : Reporter) :
    r.reportEscape (Fault.unknownStatement .endMarker).escape = some bodyReport := by
  have hplace : ∀ message, r.place? ⟨.general, message, none⟩ = none := by
    intro message
    rw [Reporter.place?]
    cases r.path <;> rfl
  have hmessage : "unknown error: '" ++ "TypeError" ++ ": " ++
      (Fault.unknownStatement .endMarker).message ++ "'" =
        "unknown error: 'TypeError: unknown statement: EndMarker()'" := by decide
  simp only [Fault.escape, Fault.label, Reporter.reportEscape, Reporter.report, hplace, hmessage]
  rfl

theorem written_append (colouring : Colouring) (reports more : List Report) :
    written colouring (reports ++ more) = written colouring reports ++ written colouring more := by
  rw [written, List.map_append, String.join_append]
  rfl

/-- A file that can be read is written out by a session in which a fault ends the program. -/
theorem runFile_format (limits : Limits) (colouring : Colouring) (clock : Nat → Float)
    (hfile : file ≠ Session.terminalPath) (hsource : sourceText file contents = .ok source) :
    ∃ opened : Session, opened.reporter.fatal = true ∧
      runFile limits colouring clock (some .format) file contents =
        match Session.formatFrom limits ((TokenStream.ofText source).statements limits.nesting) .ok
          opened with
        | .ok status session => some (finish colouring status session)
        | .error (.fault fault) session => some (abort colouring fault.escape session)
        | .error .unfinished _ => none := by
  refine ⟨⟨.script, file, .initial clock, 0, [], ((Reporter.initial true).withFile file "").withFile
    file source, []⟩, rfl, ?_⟩
  rw [runFile, Session.start]
  simp only [if_neg hfile, hsource]
  rfl

/-- Writing out a file that can be read comes to an end. It ends with a fault of the machinery exactly
if the end of the input stands in the place of a body. -/
theorem exists_runFile_format (hfile : file ≠ Session.terminalPath)
    (hsource : sourceText file contents = .ok source)
    (hheight : ∀ statement : Stmt Unit,
      (.ok statement : Item) ∈ (TokenStream.ofText source).statements limits.nesting →
        statement.height ≤ limits.writing) :
    ∃ outcome, runFile limits colouring clock (some .format) file contents = some outcome ∧
      (outcome.code = some 1 ↔
        Session.Lacks ((TokenStream.ofText source).statements limits.nesting)) ∧
      (outcome.code = some 1 →
        ∃ errors, outcome.errors = errors ++ written colouring [bodyReport]) := by
  obtain ⟨opened, hfatal, hrun⟩ := runFile_format limits colouring clock hfile hsource
  obtain ⟨hreporter, hlisted⟩ := Session.listed_formatFrom (TokenStream.genuine_ofText source)
    hheight .ok opened
  obtain ⟨hlacks, t, ht⟩ | ⟨hlacks, status, t, ht⟩ := hlisted
  · have hlist : Session.formatFrom limits ((TokenStream.ofText source).statements limits.nesting) .ok
        opened = .error (.fault (.unknownStatement .endMarker)) t := ht
    rw [hlist] at hrun
    have hcode : t.reporter.fatal = true := by
      have hsame : t.reporter = opened.reporter := by
        rw [← hreporter, ht]
        rfl
      rw [hsame]
      exact hfatal
    refine ⟨_, hrun, ⟨fun _ => hlacks, fun _ => ?_⟩, fun _ => ⟨written colouring t.reports, ?_⟩⟩
    · show (if t.reporter.fatal then some 1 else none) = (some 1 : Option Int)
      rw [hcode]
      rfl
    · exact (congrArg (fun report => written colouring (t.reports ++ Option.toList report))
        (reportEscape_endMarker t.reporter)).trans (written_append colouring _ _)
  · have hlist : Session.formatFrom limits ((TokenStream.ofText source).statements limits.nesting) .ok
        opened = .ok status t := ht
    rw [hlist] at hrun
    have hcode : (finish colouring status t).code ≠ some 1 := by
      cases status <;> simp [finish, exitCode]
    exact ⟨_, hrun, ⟨fun h => absurd h hcode, fun h => absurd h hlacks⟩, fun h => absurd h hcode⟩

/-- Every statement that is taken from a text is handled by every reader of trees, up to its program
text. A file with that text is written out, and this ends with a fault of the machinery exactly if the
end of the input stands in the place of a body. -/
theorem taken_handled (limits : Limits) (colouring : Colouring) (clock : Nat → Float) (source : String)
    (count : Nat) :
    (∀ statement : Stmt Unit,
      (.ok statement : Item) ∈ (TokenStream.ofText source).taken limits.nesting count →
        statement.Handled limits) ∧
    ∀ (file : String) (contents : Option (List UInt8)), file ≠ Session.terminalPath →
      sourceText file contents = .ok source →
      (∀ statement : Stmt Unit,
        (.ok statement : Item) ∈ (TokenStream.ofText source).statements limits.nesting →
          statement.height ≤ limits.writing) →
      ∃ outcome, runFile limits colouring clock (some .format) file contents = some outcome ∧
        (outcome.code = some 1 ↔
          Session.Lacks ((TokenStream.ofText source).statements limits.nesting)) ∧
        (outcome.code = some 1 →
          ∃ errors, outcome.errors = errors ++ written colouring [bodyReport]) :=
  ⟨fun _ hmem => ((TokenStream.genuine_ofText source).within_of_mem_taken hmem).handled limits,
    fun _ _ hfile hsource hheight => exists_runFile_format hfile hsource hheight⟩

/-- A text that ends behind the head of a conditional. -/
def openConditional : String :=
  "if (true)"

theorem taken_handled_openConditional :
    sourceText "a.lox" (some openConditional.toUTF8.toList) = .ok openConditional ∧
      (∀ statement : Stmt Unit, (.ok statement : Item) ∈
        (TokenStream.ofText openConditional).taken Limits.standard.nesting 1 →
          statement.Handled .standard) ∧
      Session.Lacks ((TokenStream.ofText openConditional).statements Limits.standard.nesting) ∧
      ∃ outcome, runFile .standard .plain (fun _ => 0) (some .format) "a.lox"
          (some openConditional.toUTF8.toList) = some outcome ∧
        outcome.code = some 1 ∧ ∃ errors, outcome.errors = errors ++ written .plain [bodyReport] := by
  have hsource : sourceText "a.lox" (some openConditional.toUTF8.toList) = .ok openConditional := by
    decide +kernel
  have hheights : ((TokenStream.ofText openConditional).statements Limits.standard.nesting).all
      (fun item => item.toOption.all fun s => decide (s.height ≤ Limits.standard.writing)) = true := by
    decide +kernel
  have hlacking : ((TokenStream.ofText openConditional).statements Limits.standard.nesting).any
      (fun item => item.toOption.any Stmt.lacksBody) = true := by decide +kernel
  have hlacks : Session.Lacks
      ((TokenStream.ofText openConditional).statements Limits.standard.nesting) := by
    obtain ⟨item, hmem, hitem⟩ := List.any_eq_true.mp hlacking
    cases item with
    | error error => cases hitem
    | ok statement => exact ⟨statement, hmem, hitem⟩
  obtain ⟨hhandled, hwritten⟩ := taken_handled .standard .plain (fun _ => 0) openConditional 1
  obtain ⟨outcome, hrun, hcode, herrors⟩ := hwritten "a.lox" (some openConditional.toUTF8.toList)
    (by decide) hsource fun statement hmem => by
      simpa [Except.toOption] using List.all_eq_true.mp hheights _ hmem
  exact ⟨hsource, hhandled, hlacks, outcome, hrun, hcode.mpr hlacks, herrors (hcode.mpr hlacks)⟩

/-- Not every file is written out without a fault: in this one the end of the input is the branch of a
conditional. -/
theorem runFile_format_conditional :
    runFile .standard .plain (fun _ => 0) (some .format) "a.lox"
        (some [0x69, 0x66, 0x20, 0x28, 0x74, 0x72, 0x75, 0x65, 0x29]) =
      some ⟨some 1, "",
        "[internal] error: unknown error: 'TypeError: unknown statement: EndMarker()'\n"⟩ := by
  decide +kernel

end CommandLine

end Lox
