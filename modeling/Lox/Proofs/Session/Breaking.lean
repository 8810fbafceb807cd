import Lox.Proofs.Grammar.Braces
import Lox.Proofs.Grammar.Joining
import Lox.Proofs.Session.Finishing
import Lox.Proofs.Session.Reporting
import Lox.Proofs.Session.Soundness

/-!
# Blocks that are broken

An error in a block or in a function is reported, and reading goes on at the first keyword behind it
that starts a statement. If there is none, an interactive session does nothing else. If there is one,
it stands in the middle of the block: what begins there is executed as if it stood alone, and since
the block is still closed behind it, there is one more error at least.
-/
namespace Lox
open Outcome

namespace TokenStream
variable {s rest : TokenStream} {header inside : List (Option Kind)} {error : ParseError}

/-- What stands behind an error: a lexical error has been passed over, and the token at which there is
another one is dropped. -/
def behind (place : TokenStream) : ParseError → TokenStream
  | .lexical _ => place
  | .syntactic _ => place.tail

/-- There is a keyword on the stream that starts a statement. -/
def HasKeyword (s : TokenStream) : Prop :=
  ∃ token, .ok token ∈ s.pending ∧ token.kind.isSyncPoint = true

/-- The text is one block or one function, and its braces match. The header is what stands before its
first brace. -/
structure Encloses (s : TokenStream) (header inside : List (Option Kind)) : Prop where
  kinds : s.kinds = header ++ some .leftBrace :: (inside ++ [some .rightBrace])
  header : header = [] ∨ ∃ signature, header = some .kwFun :: signature ∧ braces signature = []
  matched : Bracket.Balanced (braces inside)

theorem recover_eq (place : TokenStream) (error : ParseError) :
    place.recover error = (place.behind error).sync := by
  cases error <;> rfl

/-- Reading goes on at the end of the text if there is no keyword. -/
theorem pending_sync_eq_nil_iff : s.sync.pending = [] ↔ ¬ s.HasKeyword := by
  have hdrop : s.sync.pending = s.pending.dropWhile fun answer => !isSyncPoint answer :=
    congrArg (List.dropWhile · s.pending) (funext fun answer => by cases answer <;> rfl)
  rw [hdrop, List.dropWhile_eq_nil_iff, HasKeyword]
  push Not
  constructor
  · intro h token hmem
    simpa [isSyncPoint] using h _ hmem
  · intro h answer hmem
    cases answer with
    | ok token => simpa [isSyncPoint] using h token hmem
    | error e => rfl

theorem kinds_length (s : TokenStream) : s.kinds.length = s.remaining :=
  List.length_map _

theorem pending_ne_nil_of_closes
    (h : (braces s.kinds).count .opening < (braces s.kinds).count .closing) : s.pending ≠ [] := by
  intro hnil
  rw [kinds, hnil] at h
  exact absurd h (Nat.lt_irrefl 0)

/-- What is left of a text does not begin with its end. -/
theorem Genuine.head?_statements_ne (h : s.Genuine) (hpending : s.pending ≠ []) (depth : Nat) :
    (s.statements (depth + 1)).head? ≠ some (.ok .endMarker) := by
  intro hend
  cases htake : s.takeStatement (depth + 1) with
  | mk item rest =>
    rw [Grammar.statements_of_pending_ne_nil h hpending htake] at hend
    cases hend
    exact hpending (h.pending_eq_nil_of_endMarker htake)

/-- What is left inside the braces of a text closes more than it opens. -/
theorem Encloses.closes (h : s.Encloses header inside) (hrest : rest.pending <:+ s.pending)
    (hinside : rest.remaining ≤ inside.length + 1) (hpending : rest.pending ≠ []) :
    (braces rest.kinds).count .opening < (braces rest.kinds).count .closing := by
  have hsuffix : rest.kinds <:+ s.kinds := hrest.map _
  have hbody : inside ++ [some .rightBrace] <:+ s.kinds :=
    ⟨header ++ [some .leftBrace], by rw [h.kinds]; simp⟩
  have hlength : rest.kinds.length ≤ (inside ++ [some Kind.rightBrace]).length := by
    rw [kinds_length, List.length_append, List.length_singleton]
    exact hinside
  obtain ⟨front, hfront⟩ := List.suffix_of_suffix_length_le hsuffix hbody hlength
  rcases List.eq_nil_or_concat rest.kinds with hnil | ⟨back, last, hkinds⟩
  · exact absurd (List.map_eq_nil_iff.mp hnil) hpending
  rw [hkinds, List.concat_eq_append, ← List.append_assoc] at hfront
  obtain ⟨hmatched, hlast⟩ := List.append_inj' hfront rfl
  obtain rfl : last = some .rightBrace := (List.cons.inj hlast).1
  have hle := h.matched.count_le_of_append (by rw [← hmatched, braces_append])
  have hclosing : braces [some .rightBrace] = [.closing] := rfl
  rw [hkinds, List.concat_eq_append, braces_append, hclosing, List.count_append, List.count_append]
  exact Nat.lt_succ_of_le hle

/-- Reading does not go on in front of the brace of a block. -/
theorem Encloses.remaining_le (h : s.Encloses header inside) (hs : s.Genuine) (depth : Nat)
    (hheader : header = []) : (s.takeStatement depth).2.remaining ≤ inside.length + 1 := by
  have hremaining : s.remaining = inside.length + 2 := by
    rw [← kinds_length, h.kinds, hheader]
    simp
  have hpending : s.pending ≠ [] := fun hnil => by
    rw [pending_eq_nil_iff.mp hnil] at hremaining
    cases hremaining
  have hless := hs.remaining_takeStatement_lt hpending depth
  omega

end TokenStream

namespace Session
variable {limits : Limits} {s t : Session} {stream rest : TokenStream}

/-- What has been reported stays. -/
theorem reports_le_of_walk {upkeep : Upkeep} {items : List Item} {status ended : Status}
    (h : walk upkeep limits items status s = .ok ended t) : s.reports.length ≤ t.reports.length := by
  obtain ⟨news, hnews, -⟩ := adds_of_walk h
  rw [hnews, List.length_append]
  exact Nat.le_add_right _ _

/-- As long as something is left of a text, a session that was not done before it is not done. -/
theorem done_of_handle {past : List (Stmt Site)} (hregular : Regular past s)
    (hdone : s.machine.done = false) (hstream : stream.Genuine) (hnesting : 0 < limits.nesting)
    {item : Item} (htake : stream.takeStatement limits.nesting = (item, rest))
    (hpending : stream.pending ≠ []) (hrest : rest.pending ≠ []) {status : Status} {run : Bool}
    (h : handle .forgetting limits item run s = .ok status t) :
    status ≠ .done ∧ t.machine.done = false := by
  have hne : status ≠ .done := by
    rintro rfl
    cases finishes_of_handle hregular hstream hnesting htake h with
    | marker => exact hpending (hstream.pending_eq_nil_of_endMarker htake)
    | stale _ _ hstale =>
      rw [hdone] at hstale
      cases hstale
    | body _ _ _ hend => exact hrest hend
  have hstep : step limits stream run .byDistance s = .ok (status, rest) t := by
    rw [step_apply, htake]
    simp only [h]
  exact ⟨hne, (done_of_step hregular hstream hstep hne hrest).trans hdone⟩

/-- A statement opens as many braces as it closes. So where more braces are closed than opened, this is
also so behind it, and what is left is gone through. -/
theorem closes_of_handle {past : List (Stmt Site)} (hregular : Regular past s)
    (hdone : s.machine.done = false) (hstream : stream.Genuine) (hnesting : 0 < limits.nesting)
    (hcloses : (braces stream.kinds).count .opening < (braces stream.kinds).count .closing)
    {item : Item} (htake : stream.takeStatement limits.nesting = (item, rest)) {status : Status}
    {run : Bool} (h : handle .forgetting limits item run s = .ok status t)
    (hne : status ≠ .grammarError) : status ≠ .done ∧ t.machine.done = false ∧
      (braces rest.kinds).count .opening < (braces rest.kinds).count .closing := by
  have hpending := TokenStream.pending_ne_nil_of_closes hcloses
  cases item with
  | error e =>
    cases h
    exact absurd rfl hne
  | ok statement =>
    obtain ⟨bs, heven, hbraces⟩ := TokenStream.exists_even_of_takeStatement htake
    rw [hbraces, List.count_append, List.count_append, heven] at hcloses
    have hopen := Nat.lt_of_add_lt_add_left hcloses
    obtain ⟨hgoes, hdone'⟩ := done_of_handle hregular hdone hstream hnesting htake hpending
      (TokenStream.pending_ne_nil_of_closes hopen) h
    exact ⟨hgoes, hdone', hopen⟩

/-- A text that closes more braces than it opens is not gone through without a report. -/
theorem History.reports_lt_of_walk (hs : History s) (hmode : s.mode = .interactive)
    (hdone : s.machine.done = false) (hstream : stream.Genuine) (hnesting : 0 < limits.nesting)
    (hcloses : (braces stream.kinds).count .opening < (braces stream.kinds).count .closing)
    {status ended : Status}
    (h : walk .forgetting limits (stream.statements limits.nesting) status s = .ok ended t) :
    s.reports.length < t.reports.length := by
  obtain ⟨depth, hdepth⟩ := Nat.exists_eq_add_of_lt hnesting
  rw [Nat.zero_add] at hdepth
  induction hremaining : stream.remaining using Nat.strongRecOn generalizing stream s status with
  | _ remaining ih =>
    have hpending := TokenStream.pending_ne_nil_of_closes hcloses
    obtain ⟨past, hregular⟩ := hs.regular
    have hrun : true = (decide (s.mode = .interactive) || decide (status = .ok)) := by
      rw [hmode]
      rfl
    have hless := hstream.remaining_takeStatement_lt hpending limits.nesting
    have hended := hs.ended limits hstream true
    have hnext := hs.step limits hstream true
    have hrest := hstream.takeStatement limits.nesting
    rw [final_step] at hnext
    cases htake : stream.takeStatement limits.nesting with
    | mk item rest =>
      have hitems : stream.statements limits.nesting = item :: rest.statements limits.nesting := by
        rw [hdepth] at htake ⊢
        exact Grammar.statements_of_pending_ne_nil hstream hpending htake
      rw [hitems, walk_cons hrun] at h
      rw [htake] at hless hended hnext hrest
      simp only at hless hended hnext hrest
      cases hhandle : handle .forgetting limits item true s with
      | error interruption u =>
        rw [hhandle] at h
        cases h
      | ok result u =>
        rw [hhandle] at h hended hnext
        have hmode' : u.mode = .interactive := (SameSetting.handle hhandle).1.trans hmode
        -- One report is enough.
        have henough : ∀ {status' : Status} {d : Diagnostic},
            u.reports = s.reports ++ [s.reporter.report d false] →
            walk .forgetting limits (rest.statements limits.nesting) status' u = .ok ended t →
            s.reports.length < t.reports.length := by
          intro status' d hreports hwalk
          refine Nat.lt_of_lt_of_le ?_ (reports_le_of_walk hwalk)
          rw [hreports, List.length_append]
          exact Nat.lt_succ_self _
        have hquiet := closes_of_handle hregular hdone hstream hnesting hcloses htake hhandle
        obtain ⟨hreported⟩ := hended
        cases result with
        | grammarError =>
          obtain ⟨d, -, hreports⟩ := hreported
          exact henough hreports h
        | runtimeError =>
          obtain ⟨d, -, hreports⟩ := hreported
          simp only [hmode] at h
          exact henough hreports h
        | done => exact absurd rfl (hquiet nofun).1
        | ok =>
          obtain ⟨-, hdone', hopen⟩ := hquiet nofun
          have hreports : u.reports = s.reports := hreported
          rw [← hreports]
          exact ih rest.remaining (hremaining ▸ hless) hnext hmode' hdone' hrest hopen h rfl

/-- Where only the end of the input is left, an interactive session does nothing. -/
theorem walk_endMarker (hscoping : 0 < limits.scoping) (hexecution : 0 < limits.execution)
    (status : Status) (hmode : s.mode = .interactive) :
    (do let ended ← walk .forgetting limits [.ok .endMarker] status
        modify closed
        return ended : SessionM Status) s =
      .ok status { s with machine := { s.machine with done := false } } := by
  have hrun : true = (decide (s.mode = .interactive) || decide (status = .ok)) := by
    rw [hmode]
    rfl
  have hwalk : walk .forgetting limits [.ok .endMarker] status s =
      .ok status { s with machine := { s.machine with done := true } } := by
    rw [walk_cons hrun, handle_endMarker_true hscoping hexecution]
  have hclosed := closed_of_interactive
    (s := { s with machine := { s.machine with done := true } }) hmode
  rw [bind_of_ok hwalk, modify_bind_apply, hclosed]
  rfl

/-- A text that begins with an error. The session reports it, and walks along what stands from the
first keyword behind it. -/
theorem runSource_of_error (hnesting : 0 < limits.nesting) (hscoping : 0 < limits.scoping)
    (hexecution : 0 < limits.execution) {source : String} {error : ParseError} {place : TokenStream}
    (herror : Parser.statement limits.nesting (.ofText source) = .error error place) :
    runSource limits source .byDistance s =
      (do let status ← walk .forgetting limits
            ((place.behind error).sync.statements limits.nesting) .grammarError
          modify closed
          return status : SessionM Status)
        (reported { s with reporter := s.reporter.withFile s.path source } error.diagnostic) := by
  obtain ⟨depth, hdepth⟩ := Nat.exists_eq_add_of_lt hnesting
  rw [Nat.zero_add] at hdepth
  have hgenuine := TokenStream.genuine_ofText source
  have htake := Grammar.takeStatement_of_error herror
  rw [TokenStream.recover_eq] at htake
  have hpending : (TokenStream.ofText source).pending ≠ [] := fun hnil => by
    rw [hdepth, TokenStream.takeStatement_of_pending_eq_nil hnil] at htake
    cases htake
  have hitems : (TokenStream.ofText source).statements limits.nesting =
      .error error :: (place.behind error).sync.statements limits.nesting := by
    rw [hdepth] at htake ⊢
    exact Grammar.statements_of_pending_ne_nil hgenuine hpending htake
  rw [runSource_apply hscoping hexecution, hitems, bind_apply, walk_cons rfl, bind_apply]
  rfl

/-- A block or a function with an error in it, in an interactive session. If no keyword that starts a
statement stands behind the error, this is reported and nothing else happens. If there is one, the
session goes on there with something that is not the end of the input; if the keyword stands between
the braces, there are two reports at least when the session comes to the end. -/
theorem broken_once_iff (hs : History s) (hmode : s.mode = .interactive)
    (hnesting : 0 < limits.nesting) (hscoping : 0 < limits.scoping)
    (hexecution : 0 < limits.execution) {source : String} {header inside : List (Option Kind)}
    (hsource : (TokenStream.ofText source).Encloses header inside) {error : ParseError}
    {place : TokenStream}
    (herror : Parser.statement limits.nesting (.ofText source) = .error error place) :
    (¬ (place.behind error).HasKeyword →
      runSource limits source .byDistance s = .ok .grammarError { s with
        machine := { s.machine with done := false }
        reporter := s.reporter.withFile s.path source
        reports := s.reports ++
          [(s.reporter.withFile s.path source).report error.diagnostic false] }) ∧
    ((place.behind error).HasKeyword →
      runSource limits source .byDistance s =
        (do let status ← walk .forgetting limits
              ((place.behind error).sync.statements limits.nesting) .grammarError
            modify closed
            return status : SessionM Status)
          (reported { s with reporter := s.reporter.withFile s.path source } error.diagnostic) ∧
      ((place.behind error).sync.statements limits.nesting).head? ≠ some (.ok .endMarker) ∧
      (s.machine.done = false →
        (header = [] ∨ (place.behind error).sync.remaining ≤ inside.length + 1) →
        ∀ {status : Status} {t : Session}, runSource limits source .byDistance s = .ok status t →
          s.reports.length + 2 ≤ t.reports.length)) := by
  have hgenuine := TokenStream.genuine_ofText source
  have hrun := runSource_of_error (s := s) hnesting hscoping hexecution herror
  have htake := Grammar.takeStatement_of_error herror
  rw [TokenStream.recover_eq] at htake
  have hrest := hgenuine.takeStatement limits.nesting
  have hsuffix := (TokenStream.ofText source).pending_takeStatement_suffix limits.nesting
  have hinside := hsource.remaining_le hgenuine limits.nesting
  rw [htake] at hrest hsuffix hinside
  simp only at hrest hsuffix hinside
  have hnil := TokenStream.pending_sync_eq_nil_iff (s := place.behind error)
  generalize (place.behind error).sync = rest at hrun hrest hsuffix hinside hnil ⊢
  obtain ⟨depth, hdepth⟩ := Nat.exists_eq_add_of_lt hnesting
  rw [Nat.zero_add] at hdepth
  constructor
  · intro hnone
    have hend : rest.statements limits.nesting = [.ok .endMarker] := by
      rw [hdepth]
      exact Grammar.statements_of_pending_eq_nil (hnil.mpr hnone) depth
    rw [hrun, hend]
    exact walk_endMarker hscoping hexecution .grammarError hmode
  · intro hkeyword
    have hpending : rest.pending ≠ [] := fun h => hnil.mp h hkeyword
    refine ⟨hrun, fun hend => ?_, fun hdone hbraces status t hended => ?_⟩
    · rw [hdepth] at hend
      exact hrest.head?_statements_ne hpending depth hend
    · have hcloses := hsource.closes hsuffix (hbraces.elim hinside id) hpending
      rw [hrun] at hended
      obtain ⟨status', u, hwalk, hclose⟩ := bind_eq_ok.mp hended
      cases hclose
      have hreported : History
          (reported { s with reporter := s.reporter.withFile s.path source } error.diagnostic) := by
        have hstep := (hs.quoted source).step limits hgenuine true
        rw [final_step, htake] at hstep
        exact hstep
      have hless := hreported.reports_lt_of_walk hmode hdone hrest hnesting hcloses hwalk
      rw [reported, List.length_append] at hless
      rw [reports_closed]
      exact hless

/-- A new interactive session. -/
def fresh : Session :=
  ⟨.interactive, "<in>", .initial fun _ => 0, 0, [],
    { (Reporter.initial true).withFile "<in>" "" with fatal := false }, []⟩

theorem start_fresh : start .interactive "<in>" (fun _ => 0) (.initial true) = .ok fresh := rfl

theorem history_fresh : History fresh :=
  .start start_fresh

/-- A block in which a semicolon is missing. -/
def brokenBlock : String :=
  "\x7b nil nil; print nil; \x7d"

theorem brokenBlock_encloses : (TokenStream.ofText brokenBlock).Encloses [] [some .kwNil, some .kwNil,
    some .semicolon, some .kwPrint, some .kwNil, some .semicolon] where
  kinds := by decide +kernel
  header := .inl rfl
  matched := .nil

theorem broken_once_iff_of_block :
    ∃ error place, Parser.statement Limits.standard.nesting (.ofText brokenBlock) = .error error place ∧
      (place.behind error).HasKeyword ∧ fresh.machine.done = false ∧
      ∀ {status : Status} {t : Session},
        runSource .standard brokenBlock .byDistance fresh = .ok status t → 2 ≤ t.reports.length := by
  have hkeyword : (match Parser.statement Limits.standard.nesting (.ofText brokenBlock) with
      | .error error place => (place.behind error).pending.any TokenStream.isSyncPoint
      | .ok _ _ => false) = true := by decide +kernel
  cases herror : Parser.statement Limits.standard.nesting (.ofText brokenBlock) with
  | ok statement rest =>
    rw [herror] at hkeyword
    cases hkeyword
  | error error place =>
    rw [herror] at hkeyword
    obtain ⟨answer, hmem, hpoint⟩ := List.any_eq_true.mp hkeyword
    have hbehind : (place.behind error).HasKeyword := by
      cases answer with
      | ok token => exact ⟨token, hmem, hpoint⟩
      | error e => cases hpoint
    have hmain := broken_once_iff history_fresh rfl (by decide) (by decide)
      (by decide) brokenBlock_encloses herror
    exact ⟨error, place, rfl, hbehind, rfl, fun hrun => (hmain.2 hbehind).2.2 rfl (.inl rfl) hrun⟩

/-- The statement behind the missing semicolon is executed, and the block is reported twice. -/
theorem brokenBlock_prints :
    (∃ inside, (TokenStream.ofText brokenBlock).Encloses [] inside) ∧
    (∃ error rest, (TokenStream.ofText brokenBlock).takeStatement Limits.standard.nesting =
      (.error error, rest)) ∧
    ∃ t, runSource .standard brokenBlock .byDistance fresh = .ok .grammarError t ∧
      t.reports.length = 2 ∧ t.machine.output = "nil\n" := by
  have herror : ((TokenStream.ofText brokenBlock).takeStatement Limits.standard.nesting).1.isOk =
      false := by decide +kernel
  have hrun : answer? (runSource .standard brokenBlock .byDistance fresh) = some .grammarError := by
    decide +kernel
  have hreports : (final (runSource .standard brokenBlock .byDistance fresh)).reports.length = 2 := by
    decide +kernel
  have houtput : (final (runSource .standard brokenBlock .byDistance fresh)).machine.output =
      "nil\n" := by decide +kernel
  refine ⟨⟨_, brokenBlock_encloses⟩, ?_, ?_⟩
  · cases htake : (TokenStream.ofText brokenBlock).takeStatement Limits.standard.nesting with
    | mk item rest =>
      cases item with
      | ok statement =>
        rw [htake] at herror
        cases herror
      | error error => exact ⟨error, rest, rfl⟩
  · obtain ⟨t, heq⟩ := answer?_eq_some.mp hrun
    rw [heq] at hreports houtput
    exact ⟨t, heq, hreports, houtput⟩

end Session

end Lox
