import Mathlib.Data.Nat.Pairing
import Mathlib.Logic.Equiv.Nat
import Lox.Proofs.Respelling.Relining
import Lox.Proofs.Session.Scripts
import Lox.Proofs.Session.Splitting

/-!
# Tokens with addresses

The line of a token is counted in the source that the token comes from, and what a session stores may
hold tokens of all sources before. They can be told apart if the tokens of each source are given
addresses in the place of lines, numbers that stand for the source and the line. Since lines only go
into reports, the session does the same then, and the address in a report names the token that is
blamed.
-/
namespace Lox
open Outcome

/-- The number that stands for a line of a source. -/
def address (source : Nat) (line : Int) : Int :=
  Nat.pair source (Equiv.intEquivNat line)

namespace Address

/-- The source that an address belongs to. -/
def source (n : Int) : Nat :=
  n.toNat.unpair.1

/-- The line that an address belongs to. -/
def line (n : Int) : Int :=
  Equiv.intEquivNat.symm n.toNat.unpair.2

@[simp] theorem source_address (number : Nat) (l : Int) : source (address number l) = number := by
  simp [source, address]

@[simp] theorem line_address (number : Nat) (l : Int) : line (address number l) = l := by
  simp [line, address]

end Address

namespace TokenStream
variable {s : TokenStream}

/-- Something on the stream is on that line: a token, an error, or the end of the text. -/
def Mentions (s : TokenStream) (line : Int) : Prop :=
  line = s.lastLine ∨ ∃ answer ∈ s.pending, line = match answer with
    | .ok token => token.line
    | .error error => error.line

theorem reline_reline (line line' : Int → Int) (s : TokenStream) :
    (s.reline line).reline line' = s.reline (line' ∘ line) := by
  simp only [reline, List.map_map, Function.comp]
  congr 1
  refine List.map_congr_left fun answer _ => ?_
  cases answer <;> rfl

/-- Only the lines matter that are mentioned. -/
theorem reline_congr {line line' : Int → Int} (h : ∀ l, s.Mentions l → line l = line' l) :
    s.reline line = s.reline line' := by
  have hanswer : ∀ answer ∈ s.pending, relineHead line answer = relineHead line' answer := by
    intro answer hmem
    have hsame := h _ (.inr ⟨answer, hmem, rfl⟩)
    cases answer with
    | ok token =>
      exact congrArg (fun l => (.ok { token with line := l } : Except LexicalError Token)) hsame
    | error error =>
      exact congrArg (fun l => (.error { error with line := l } : Except LexicalError Token)) hsame
  rw [reline, reline, h _ (.inl rfl), List.map_congr_left hanswer]

theorem reline_id (s : TokenStream) : s.reline id = s := by
  have hanswer : ∀ answer ∈ s.pending, relineHead id answer = answer := by
    intro answer _
    cases answer <;> rfl
  rw [reline, List.map_congr_left hanswer, List.map_id']
  rfl

end TokenStream

namespace Session
variable {limits : Limits} {s s' t : Session} {sources : List String} {source : String}

/-- Runs a source whose tokens have addresses in the place of lines. -/
def runAddressed (limits : Limits) (number : Nat) (source : String) : SessionM Status := do
  quoteFrom source
  runStream limits ((TokenStream.ofText source).reline (address number))

/-- The sessions that `start` becomes when sources are run one after the other. -/
inductive Entered (limits : Limits) (start : Session) : List String → Session → Prop where
  | nothing : Entered limits start [] start
  | add {sources : List String} {source : String} {status : Status} {s t : Session}
    (hs : Entered limits start sources s)
    (h : runSource limits source .byDistance s = .ok status t) :
    Entered limits start (sources ++ [source]) t

/-- The sessions that it becomes when their tokens have addresses. -/
inductive Addressed (limits : Limits) (start : Session) : List String → Session → Prop where
  | nothing : Addressed limits start [] start
  | add {sources : List String} {source : String} {status : Status} {s t : Session}
    (hs : Addressed limits start sources s)
    (h : runAddressed limits sources.length source s = .ok status t) :
    Addressed limits start (sources ++ [source]) t

end Session

namespace Mirror
open Session
variable {past : List (Stmt Site)} {limits : Limits} {s t : Session} {stream : TokenStream}
  {line : Int → Int}

/-- The session that is given everything on other lines. -/
def relined (line : Int → Int) : Mirror where
  respelling := .lines line
  forms := .regular
  upkeep := .forgetting
  reporters _ _ := True
  reports a b := b.diagnostic = { a.diagnostic with line := a.diagnostic.line.map line }
  proper := Respelling.proper_lines _ _
  report := by
    rintro r r' d d' - hd
    exact hd.eq_of_lines

/-- Reports that are left alone by every map of lines that leaves certain lines alone have no other
lines: all others could be changed. -/
theorem line_of_left_alone {P : Int → Prop} {reports : List Report}
    (h : ∀ line : Int → Int, (∀ n, P n → line n = n) →
      List.Forall₂ (relined line).reports reports reports)
    {r : Report} (hr : r ∈ reports) {n : Int} (hn : r.diagnostic.line = some n) : P n := by
  classical
  let line : Int → Int := fun n => if P n then n else n + 1
  have hpairs := h line fun n hn => if_pos hn
  have hsame := congrArg Diagnostic.line (List.forall₂_same.mp hpairs r hr)
  rw [hn] at hsame
  have hfixed : n = line n := Option.some.inj hsame
  by_contra hnot
  rw [show line n = n + 1 from if_neg hnot] at hfixed
  omega

theorem Shown.exists_ok {M : Mirror} {α : Type} {a : α}
    {r : EStateM.Result Interruption Session α} (h : M.Shown r (.ok a t)) :
    ∃ s, r = .ok a s ∧ ∃ past, M.Shows past s t := by
  cases r with
  | ok b s =>
    obtain ⟨rfl, hshows⟩ := h
    exact ⟨s, rfl, hshows⟩
  | error i s => exact h.elim

namespace Shows

theorem steps (h : (relined line).Shows past s t) (limits : Limits) (hstream : stream.Genuine)
    (count : Nat) (status : Status) :
    (relined line).Shown (Session.steps .byDistance limits count stream status s)
      (Session.steps .byDistance limits count (stream.reline line) status t) := by
  rw [steps_eq_walk, steps_eq_walk, TokenStream.taken_reline]
  exact h.walk (walks_reline rfl rfl hstream count _) status

end Shows

end Mirror

namespace Session
open Mirror
variable {past : List (Stmt Site)} {limits : Limits} {start s s' t : Session} {sources : List String}
  {source : String} {count : Nat} {status : Status}

/-- The tokens of a source with addresses are the tokens of the source on other lines. -/
theorem reline_line_address (number : Nat) (source : String) :
    ((TokenStream.ofText source).reline (address number)).reline Address.line = .ofText source := by
  have hline : Address.line ∘ address number = id := funext (Address.line_address number)
  rw [TokenStream.reline_reline, hline, TokenStream.reline_id]

theorem start_shows {path : String} {clock : Nat → Float} {reporter : Reporter}
    (h : Session.start .interactive path clock reporter = .ok start) (line : Int → Int) :
    (relined line).Shows [] start start :=
  .start h trivial rfl trivial

/-- A stream is run by taking the steps along it and closing the session. -/
theorem runStream_eq_ok {stream : TokenStream} :
    runStream limits stream .byDistance s = .ok status t ↔
      ∃ u, steps .byDistance limits (stream.remaining + 1) stream .ok s = .ok status u ∧
        t = u.closed := by
  rw [runStream, bind_eq_ok]
  constructor
  · rintro ⟨ended, u, hsteps, hclose⟩
    cases hclose
    exact ⟨u, hsteps, rfl⟩
  · rintro ⟨u, hsteps, rfl⟩
    exact ⟨status, u, hsteps, rfl⟩

theorem remaining_reline (line : Int → Int) (stream : TokenStream) :
    (stream.reline line).remaining = stream.remaining :=
  List.length_map _

/-- A session does the same in a source whose tokens have addresses. -/
theorem exists_addressed_steps (h : (relined Address.line).Shows past s' s) (number : Nat)
    (hsteps : steps .byDistance limits count (.ofText source) .ok
      { s with reporter := s.reporter.withFile s.path source } = .ok status t) :
    ∃ t', steps .byDistance limits count ((TokenStream.ofText source).reline (address number)) .ok
        { s' with reporter := s'.reporter.withFile s'.path source } = .ok status t' ∧
      ∃ past, (relined Address.line).Shows past t' t := by
  have hreporters : (relined Address.line).reporters (s'.reporter.withFile s'.path source)
    (s.reporter.withFile s.path source) := trivial
  have hquoted := h.quoted hreporters
  have hgenuine := TokenStream.genuine_reline (TokenStream.genuine_ofText source) (address number)
  have hshown := hquoted.steps limits hgenuine count .ok
  rw [reline_line_address, hsteps] at hshown
  exact hshown.exists_ok

/-- The addresses of what a source mentions, which is number `number` of all sources. -/
def IsAddress (sources : List String) (n : Int) : Prop :=
  ∃ source, sources[Address.source n]? = some source ∧
    (TokenStream.ofText source).Mentions (Address.line n)

/-- A map of lines that leaves addresses alone leaves the tokens of the sources alone. -/
theorem reline_address_eq {number : Nat} (hsource : sources[number]? = some source)
    {line : Int → Int} (hline : ∀ n, IsAddress sources n → line n = n) :
    ((TokenStream.ofText source).reline (address number)).reline line =
      (TokenStream.ofText source).reline (address number) := by
  rw [TokenStream.reline_reline]
  refine TokenStream.reline_congr fun l hl => hline _ ⟨source, ?_, ?_⟩
  · rw [Address.source_address, hsource]
  · rwa [Address.line_address]

theorem IsAddress.append {n : Int} (h : IsAddress sources n) (more : List String) :
    IsAddress (sources ++ more) n := by
  obtain ⟨source, hsource, hline⟩ := h
  have hlt := (List.getElem?_eq_some_iff.mp hsource).1
  exact ⟨source, (List.getElem?_append_left hlt).trans hsource, hline⟩

/-- A session in which nothing but addresses occurs is left alone by a map that leaves addresses
alone, and so is what it becomes in the steps along another source. -/
theorem shows_self_of_steps {line : Int → Int} (h : (relined line).Shows past s s)
    (hline : ∀ n, IsAddress (sources ++ [source]) n → line n = n)
    (hsteps : steps .byDistance limits count
      ((TokenStream.ofText source).reline (address sources.length)) .ok
      { s with reporter := s.reporter.withFile s.path source } = .ok status t) :
    ∃ past, (relined line).Shows past t t := by
  have hreporters : (relined line).reporters (s.reporter.withFile s.path source)
    (s.reporter.withFile s.path source) := trivial
  have hquoted := h.quoted hreporters
  have hgenuine := TokenStream.genuine_reline (TokenStream.genuine_ofText source)
    (address sources.length)
  have hshown := hquoted.steps limits hgenuine count .ok
  have hsource : (sources ++ [source])[sources.length]? = some source := by simp
  rw [reline_address_eq hsource hline, hsteps] at hshown
  exact hshown.2

theorem Addressed.shows_self {path : String} {clock : Nat → Float} {reporter : Reporter}
    (hstart : Session.start .interactive path clock reporter = .ok start)
    (h : Addressed limits start sources s) {line : Int → Int}
    (hline : ∀ n, IsAddress sources n → line n = n) : ∃ past, (relined line).Shows past s s := by
  induction h with
  | nothing => exact ⟨[], start_shows hstart _⟩
  | @add sources source status s t hs hrun ih =>
    obtain ⟨past, hshows⟩ := ih fun n hn => hline n (hn.append _)
    obtain ⟨u, hsteps, rfl⟩ := runStream_eq_ok.mp hrun
    obtain ⟨past', hself⟩ := shows_self_of_steps hshows hline hsteps
    exact ⟨past', hself.closed⟩

/-- The lines in the reports of a session whose tokens have addresses are addresses, also while
another source is being run. -/
theorem Addressed.isAddress {path : String} {clock : Nat → Float} {reporter : Reporter}
    (hstart : Session.start .interactive path clock reporter = .ok start)
    (h : Addressed limits start sources s)
    (hsteps : steps .byDistance limits count
      ((TokenStream.ofText source).reline (address sources.length)) .ok
      { s with reporter := s.reporter.withFile s.path source } = .ok status t)
    {r : Report} (hr : r ∈ t.reports) {n : Int} (hn : r.diagnostic.line = some n) :
    IsAddress (sources ++ [source]) n := by
  refine line_of_left_alone (fun line hline => ?_) hr hn
  obtain ⟨past, hshows⟩ := h.shows_self hstart fun n hn => hline n (hn.append _)
  obtain ⟨past', hself⟩ := shows_self_of_steps hshows hline hsteps
  exact hself.reports

end Session

end Lox
