import Lox.Proofs.Session.Addressing
import Lox.Proofs.Session.Breaking

/-!
# The status of a run

An interactive session steps along a source until a step is done. The status of the run is that of
the last step that has failed, and `ok` if none has. So it is the worst of the statuses, in an order
in which one kind of error is worse than the other, only if no error of the milder kind comes behind
the last one of the worse kind; and it depends on the order of the errors as soon as there are errors
of both kinds.
-/
namespace Lox
open Outcome

/-- An order of the statuses by how bad they are. Nothing is milder than `ok`, and of the two kinds of
errors one is worse. -/
structure Severity where
  rank : Status → Nat
  ok_lt_grammarError : rank .ok < rank .grammarError
  ok_lt_runtimeError : rank .ok < rank .runtimeError
  grammarError_ne_runtimeError : rank .grammarError ≠ rank .runtimeError

/-- The kind of error that is worse. -/
def Severity.worst (severity : Severity) : Status :=
  if severity.rank .grammarError < severity.rank .runtimeError then .runtimeError else .grammarError

/-- Among `ok` and the statuses of some steps, `status` is the greatest. -/
def Severity.IsGreatest (severity : Severity) (statuses : List Status) (status : Status) : Prop :=
  status ∈ .ok :: statuses ∧ ∀ other ∈ .ok :: statuses, severity.rank other ≤ severity.rank status

/-- The last of the statuses that is not `ok`, or `first` if there is none. -/
def Status.lastFailure (first : Status) (statuses : List Status) : Status :=
  (statuses.filter (· ≠ .ok)).getLastD first

namespace Status
variable {first status : Status} {statuses : List Status}

@[simp] theorem lastFailure_nil : lastFailure first [] = first := rfl

@[simp] theorem lastFailure_ok_cons : lastFailure first (.ok :: statuses) = lastFailure first statuses :=
  rfl

theorem lastFailure_cons (h : status ≠ .ok) :
    lastFailure first (status :: statuses) = lastFailure status statuses := by
  rw [lastFailure, List.filter_cons_of_pos (by simpa using h), List.getLastD_cons]
  rfl

theorem lastFailure_concat (h : status ≠ .ok) (first : Status) (statuses : List Status) :
    lastFailure first (statuses ++ [status]) = status := by
  rw [lastFailure, List.filter_append, List.filter_cons_of_pos (by simpa using h),
    List.filter_nil, List.getLastD_concat]

/-- What has failed last is one of the failures, unless there are none. -/
theorem lastFailure_eq_or (first : Status) (statuses : List Status) :
    lastFailure first statuses ∈ statuses ∧ lastFailure first statuses ≠ .ok ∨
      lastFailure first statuses = first ∧ ∀ status ∈ statuses, status = .ok := by
  rw [lastFailure]
  cases hfailed : statuses.filter (· ≠ .ok) with
  | nil =>
    refine .inr ⟨rfl, fun status hstatus => ?_⟩
    have hnone := List.filter_eq_nil_iff.mp hfailed status hstatus
    simpa using hnone
  | cons status failed =>
    have hlast : (status :: failed).getLastD first ∈ statuses.filter (· ≠ .ok) := by
      rw [hfailed, List.getLastD_cons, ← List.getLast_eq_getLastD (List.cons_ne_nil status failed)]
      exact List.getLast_mem _
    obtain ⟨hmem, hne⟩ := List.mem_filter.mp hlast
    exact .inl ⟨hmem, by simpa using hne⟩

end Status

namespace Severity
variable {severity : Severity} {status other : Status} {statuses : List Status}

/-- Errors of the grammar are worse. -/
def grammarWorst : Severity :=
  ⟨fun | .ok => 0 | .grammarError => 2 | _ => 1, by decide, by decide, by decide⟩

/-- Errors at run time are worse. -/
def runtimeWorst : Severity :=
  ⟨fun | .ok => 0 | .grammarError => 1 | _ => 2, by decide, by decide, by decide⟩

theorem worst_ne_ok (severity : Severity) : severity.worst ≠ .ok := by
  unfold worst
  split <;> decide

/-- An error is either of the worse kind or of the milder one. -/
theorem eq_of_ne_worst (hok : status ≠ .ok) (hdone : status ≠ .done) (hworst : status ≠ severity.worst)
    (hok' : other ≠ .ok) (hdone' : other ≠ .done) (hworst' : other ≠ severity.worst) :
    status = other := by
  unfold worst at hworst hworst'
  split at hworst <;> cases status <;> cases other <;> simp_all

theorem rank_ok_le (severity : Severity) (h : status ≠ .done) :
    severity.rank .ok ≤ severity.rank status := by
  cases status with
  | ok => exact Nat.le_refl _
  | grammarError => exact Nat.le_of_lt severity.ok_lt_grammarError
  | runtimeError => exact Nat.le_of_lt severity.ok_lt_runtimeError
  | done => exact absurd rfl h

theorem rank_le_worst (severity : Severity) (h : status ≠ .done) :
    severity.rank status ≤ severity.rank severity.worst := by
  have hgrammar := severity.ok_lt_grammarError
  have hruntime := severity.ok_lt_runtimeError
  unfold worst
  split <;> cases status <;> first | omega | exact absurd rfl h

theorem eq_worst_of_le (severity : Severity) (h : status ≠ .done)
    (hle : severity.rank severity.worst ≤ severity.rank status) : status = severity.worst := by
  have hgrammar := severity.ok_lt_grammarError
  have hruntime := severity.ok_lt_runtimeError
  have hne := severity.grammarError_ne_runtimeError
  unfold worst at hle ⊢
  split at hle <;> rename_i hless <;> cases status <;> simp only [hless, if_true, if_false] <;>
    first | rfl | omega | exact absurd rfl h

/-- The last failure is the worst status unless a milder error comes behind the last one of the worse
kind. -/
theorem isGreatest_lastFailure_iff (severity : Severity) (hdone : .done ∉ statuses) :
    severity.IsGreatest statuses (.lastFailure .ok statuses) ↔
      (severity.worst ∈ statuses → Status.lastFailure .ok statuses = severity.worst) := by
  have hproper : ∀ status ∈ statuses, status ≠ .done := fun status hmem heq => hdone (heq ▸ hmem)
  have hlast := Status.lastFailure_eq_or .ok statuses
  generalize Status.lastFailure .ok statuses = last at hlast ⊢
  have hlastDone : last ≠ .done := by
    rcases hlast with ⟨hmem, -⟩ | ⟨rfl, -⟩
    · exact hproper last hmem
    · decide
  constructor
  · intro hgreatest hworst
    exact severity.eq_worst_of_le hlastDone (hgreatest.2 _ (List.mem_cons_of_mem _ hworst))
  · intro h
    rcases hlast with ⟨hmem, hfailed⟩ | ⟨rfl, hall⟩
    · refine ⟨List.mem_cons_of_mem _ hmem, List.forall_mem_cons.mpr ⟨severity.rank_ok_le hlastDone, ?_⟩⟩
      intro other hother
      by_cases hworst : severity.worst ∈ statuses
      · rw [h hworst]
        exact severity.rank_le_worst (hproper other hother)
      · -- All errors are of the milder kind.
        by_cases hok : other = .ok
        · rw [hok]
          exact severity.rank_ok_le hlastDone
        · have hsame : other = last := eq_of_ne_worst hok (hproper other hother)
            (fun heq => hworst (heq ▸ hother)) hfailed hlastDone (fun heq => hworst (heq ▸ hmem))
          rw [hsame]
    · refine ⟨List.mem_cons_self, List.forall_mem_cons.mpr ⟨Nat.le_refl _, fun other hother => ?_⟩⟩
      rw [hall other hother]

/-- There are errors of both kinds. -/
def Mixed (statuses : List Status) : Prop :=
  .grammarError ∈ statuses ∧ .runtimeError ∈ statuses

/-- If there are errors of both kinds, then there is one of the kind that has not failed last. -/
theorem Mixed.exists_other (h : Mixed statuses) :
    ∃ severity : Severity, severity.worst ∈ statuses ∧
      Status.lastFailure .ok statuses ≠ severity.worst := by
  by_cases hlast : Status.lastFailure .ok statuses = .grammarError
  · exact ⟨runtimeWorst, h.2, by rw [hlast]; decide⟩
  · exact ⟨grammarWorst, h.1, hlast⟩

/-- If there are not, then every failure is the last one. -/
theorem eq_lastFailure_of_not_mixed (hdone : .done ∉ statuses) (h : ¬ Mixed statuses)
    (hmem : status ∈ statuses) (hfailed : status ≠ .ok) :
    Status.lastFailure .ok statuses = status := by
  rcases Status.lastFailure_eq_or .ok statuses with ⟨hlast, hne⟩ | ⟨-, hall⟩
  · generalize Status.lastFailure .ok statuses = last at hlast hne ⊢
    unfold Mixed at h
    cases last <;> cases status <;> first | rfl | simp_all
  · exact absurd (hall status hmem) hfailed

/-- The last failure is the worst status whatever is worse only if there are no errors of both kinds. -/
theorem forall_isGreatest_iff (hdone : .done ∉ statuses) :
    (∀ severity : Severity, severity.IsGreatest statuses (.lastFailure .ok statuses)) ↔
      ¬ Mixed statuses := by
  constructor
  · intro hall hmixed
    obtain ⟨severity, hworst, hne⟩ := hmixed.exists_other
    exact hne ((severity.isGreatest_lastFailure_iff hdone).mp (hall severity) hworst)
  · intro h severity
    exact (severity.isGreatest_lastFailure_iff hdone).mpr fun hworst =>
      eq_lastFailure_of_not_mixed hdone h hworst severity.worst_ne_ok

/-- Only then the order of the steps does not matter. -/
theorem forall_perm_iff (hdone : .done ∉ statuses) :
    (∀ others : List Status, others.Perm statuses →
        Status.lastFailure .ok others = .lastFailure .ok statuses) ↔ ¬ Mixed statuses := by
  constructor
  · intro hall hmixed
    obtain ⟨severity, hworst, hne⟩ := hmixed.exists_other
    have hmoved : (statuses.erase severity.worst ++ [severity.worst]).Perm statuses :=
      List.perm_append_comm.trans (List.perm_cons_erase hworst).symm
    have hsame := hall _ hmoved
    rw [Status.lastFailure_concat severity.worst_ne_ok] at hsame
    exact hne hsame.symm
  · intro h others hperm
    rcases Status.lastFailure_eq_or .ok others with ⟨hmem, hfailed⟩ | ⟨hok, hall⟩
    · exact (eq_lastFailure_of_not_mixed hdone h (hperm.mem_iff.mp hmem) hfailed).symm
    · rcases Status.lastFailure_eq_or .ok statuses with ⟨hmem, hfailed⟩ | ⟨hok', -⟩
      · exact absurd (hall _ (hperm.mem_iff.mpr hmem)) hfailed
      · rw [hok, hok']

end Severity

namespace Session
variable {limits : Limits} {s t u : Session} {stream rest : TokenStream} {status : Status}
  {statuses : List Status}

/-- The steps of an interactive session along a stream, and the status of each that comes before the
one that is done. -/
inductive StatusTrace (limits : Limits) : Session → TokenStream → List Status → Session → Prop where
  | done {s t : Session} {stream rest : TokenStream}
    (h : step limits stream true .byDistance s = .ok (.done, rest) t) : StatusTrace limits s stream [] t
  | step {s t u : Session} {stream rest : TokenStream} {status : Status} {statuses : List Status}
    (h : step limits stream true .byDistance s = .ok (status, rest) t) (hne : status ≠ .done)
    (hrest : StatusTrace limits t rest statuses u) : StatusTrace limits s stream (status :: statuses) u

theorem StatusTrace.done_not_mem (h : StatusTrace limits s stream statuses t) : .done ∉ statuses := by
  induction h with
  | done => exact List.not_mem_nil
  | step _ hne _ ih => exact List.not_mem_cons_of_ne_of_not_mem hne.symm ih

/-- Takes steps up to the one that is done, at most `fuel` of them, and gives the statuses of the
others. -/
def statusTrace (limits : Limits) : Nat → TokenStream → SessionM (List Status)
  | 0, _ => return []
  | fuel + 1, stream => do
    let (status, rest) ← Session.step limits stream true
    if status = .done then return [] else
    return status :: (← statusTrace limits fuel rest)

/-- An interactive session goes on after every step that is not done, with the status of the last
failure. -/
theorem steps_interactive (hmode : s.mode = .interactive) (fuel : Nat) (first : Status) :
    steps .byDistance limits fuel stream first s =
      (Status.lastFailure first <$> statusTrace limits fuel stream) s := by
  induction fuel generalizing s stream first with
  | zero => rfl
  | succ fuel ih =>
    simp only [steps, statusTrace, map_apply, bind_apply, get_apply, hmode, decide_true, Bool.true_or]
    cases hstep : Session.step limits stream true .byDistance s with
    | error interruption t => rfl
    | ok ended t =>
      obtain ⟨status, rest⟩ := ended
      have hnext : t.mode = .interactive := (sameSetting_of_step hstep).1.trans hmode
      have hgoesOn : ∀ first, steps .byDistance limits fuel rest first t =
          (Status.lastFailure first <$> statusTrace limits fuel rest) t := ih hnext
      cases status with
      | done => rfl
      | ok =>
        simp only [reduceCtorEq, if_false, bind_apply, hgoesOn, map_apply]
        cases statusTrace limits fuel rest t <;> rfl
      | grammarError | runtimeError =>
        simp only [reduceCtorEq, if_false, bind_apply, hgoesOn, map_apply]
        cases statusTrace limits fuel rest t with
        | error interruption u => rfl
        | ok statuses u =>
          exact congrArg (EStateM.Result.ok · u) (Status.lastFailure_cons (by decide)).symm

theorem takeStatement_of_end (hnesting : 0 < limits.nesting) (hpending : stream.pending = []) :
    stream.takeStatement limits.nesting = (.ok .endMarker, stream) := by
  obtain ⟨depth, hdepth⟩ := Nat.exists_eq_add_of_lt hnesting
  exact hdepth ▸ TokenStream.takeStatement_of_pending_eq_nil hpending _

/-- At the end of the input a step is done. -/
theorem step_of_end (hnesting : 0 < limits.nesting) (hscoping : 0 < limits.scoping)
    (hexecution : 0 < limits.execution) (hpending : stream.pending = []) (s : Session) :
    step limits stream true .byDistance s =
      .ok (.done, stream) { s with machine := { s.machine with done := true } } := by
  rw [step_apply, takeStatement_of_end hnesting hpending, handle_endMarker_true hscoping hexecution]

/-- Before that, a step takes something from the stream. -/
theorem remaining_of_step (hnesting : 0 < limits.nesting) (hscoping : 0 < limits.scoping)
    (hexecution : 0 < limits.execution) (hstream : stream.Genuine)
    (h : step limits stream true .byDistance s = .ok (status, rest) t) (hne : status ≠ .done) :
    rest.Genuine ∧ rest.remaining < stream.remaining := by
  have hpending : stream.pending ≠ [] := by
    intro hnil
    rw [step_of_end hnesting hscoping hexecution hnil] at h
    cases h
    exact hne rfl
  have hrest : rest = (stream.takeStatement limits.nesting).2 := snd_of_step h
  rw [hrest]
  exact ⟨hstream.takeStatement _, hstream.remaining_takeStatement_lt hpending _⟩

/-- There are enough steps to come to the one that is done. -/
theorem statusTrace_eq_ok_iff (hnesting : 0 < limits.nesting) (hscoping : 0 < limits.scoping)
    (hexecution : 0 < limits.execution) {fuel : Nat} (hstream : stream.Genuine)
    (hfuel : stream.remaining < fuel) :
    statusTrace limits fuel stream s = .ok statuses t ↔ StatusTrace limits s stream statuses t := by
  induction fuel generalizing s stream statuses with
  | zero => omega
  | succ fuel ih =>
    constructor
    · intro h
      rw [statusTrace] at h
      obtain ⟨⟨status, rest⟩, u, hstep, h⟩ := bind_eq_ok.mp h
      by_cases hdone : status = .done
      · subst hdone
        cases h
        exact .done hstep
      · simp only [if_neg hdone] at h
        obtain ⟨others, v, htrace, hpure⟩ := bind_eq_ok.mp h
        cases hpure
        obtain ⟨hgenuine, hless⟩ :=
          remaining_of_step hnesting hscoping hexecution hstream hstep hdone
        exact .step hstep hdone ((ih hgenuine (by omega)).mp htrace)
    · intro h
      rw [statusTrace]
      cases h with
      | done hstep => exact bind_of_ok hstep _
      | step hstep hne hrest =>
        obtain ⟨hgenuine, hless⟩ := remaining_of_step hnesting hscoping hexecution hstream hstep hne
        rw [bind_of_ok hstep]
        simp only [if_neg hne]
        rw [bind_of_ok ((ih hgenuine (by omega)).mpr hrest)]
        rfl

/-- What the status of a run has to do with the statuses of its steps. -/
structure Summarized (statuses : List Status) (status : Status) : Prop where
  /-- It is the status of the last failure. -/
  eq_lastFailure : status = .lastFailure .ok statuses
  /-- It is the worst one unless a milder error comes behind the last one of the worse kind. -/
  isGreatest_iff : ∀ severity : Severity, severity.IsGreatest statuses status ↔
    (severity.worst ∈ statuses → status = severity.worst)
  /-- It is the worst one whatever is worse only if there are no errors of both kinds. -/
  forall_isGreatest_iff : (∀ severity : Severity, severity.IsGreatest statuses status) ↔
    ¬ (.grammarError ∈ statuses ∧ .runtimeError ∈ statuses)
  /-- Only then the same statuses in another order have the same status. -/
  forall_perm_iff : (∀ others : List Status, others.Perm statuses →
    Status.lastFailure .ok others = status) ↔ ¬ (.grammarError ∈ statuses ∧ .runtimeError ∈ statuses)

/-- The run of a source in an interactive session ends if its steps come to one that is done, and its
status is then that of the last step that has failed, which need not be the worst. -/
theorem run_gives_last_failure (hmode : s.mode = .interactive) (hnesting : 0 < limits.nesting)
    (hscoping : 0 < limits.scoping) (hexecution : 0 < limits.execution) (source : String)
    (status : Status) (t : Session) :
    runSource limits source .byDistance s = .ok status t ↔ ∃ statuses u,
      StatusTrace limits { s with reporter := s.reporter.withFile s.path source } (.ofText source)
        statuses u ∧ t = u.closed ∧ Summarized statuses status := by
  have hstream := TokenStream.genuine_ofText source
  have hsteps := @steps_interactive limits { s with reporter := s.reporter.withFile s.path source }
    (.ofText source) hmode ((TokenStream.ofText source).remaining + 1) .ok
  have hrun : runSource limits source .byDistance s = .ok status t ↔ ∃ u,
      steps .byDistance limits ((TokenStream.ofText source).remaining + 1) (.ofText source) .ok
        { s with reporter := s.reporter.withFile s.path source } = .ok status u ∧ t = u.closed := by
    simp only [runSource, quoteFrom, modify_bind_apply]
    exact runStream_eq_ok
  rw [hrun]
  constructor
  · rintro ⟨u, hended, rfl⟩
    rw [hsteps, map_eq_ok] at hended
    obtain ⟨statuses, htrace, rfl⟩ := hended
    have hall := (statusTrace_eq_ok_iff hnesting hscoping hexecution hstream
      (Nat.lt_succ_self _)).mp htrace
    have hdone := hall.done_not_mem
    exact ⟨statuses, u, hall, rfl, rfl, fun severity => severity.isGreatest_lastFailure_iff hdone,
      Severity.forall_isGreatest_iff hdone, Severity.forall_perm_iff hdone⟩
  · rintro ⟨statuses, u, htrace, rfl, hsummarized⟩
    refine ⟨u, ?_, rfl⟩
    rw [hsteps, map_eq_ok]
    exact ⟨statuses, (statusTrace_eq_ok_iff hnesting hscoping hexecution hstream
      (Nat.lt_succ_self _)).mpr htrace, hsummarized.eq_lastFailure.symm⟩

/-- A statement that fails, and behind it one that is broken. -/
def failingThenBroken : String :=
  "assert false; 1 = 2;"

/-- The same statements in the other order. -/
def brokenThenFailing : String :=
  "1 = 2; assert false;"

theorem run_gives_last_failure_of_broken :
    ∃ t statuses u, runSource .standard failingThenBroken .byDistance fresh = .ok .grammarError t ∧
      StatusTrace .standard
        { fresh with reporter := fresh.reporter.withFile fresh.path failingThenBroken }
        (.ofText failingThenBroken) statuses u ∧
      t = u.closed ∧ Summarized statuses .grammarError := by
  have hrun : answer? (runSource .standard failingThenBroken .byDistance fresh) =
      some .grammarError := by decide +kernel
  obtain ⟨t, ht⟩ := answer?_eq_some.mp hrun
  obtain ⟨statuses, u, htrace, hclosed, hsummarized⟩ :=
    (run_gives_last_failure rfl (by decide) (by decide) (by decide) failingThenBroken .grammarError
      t).mp ht
  exact ⟨t, statuses, u, ht, htrace, hclosed, hsummarized⟩

/-- The statuses of the steps along a source in a new session, if they come to one that is done. -/
def freshStatuses (source : String) : Option (List Status) :=
  answer? (statusTrace .standard ((TokenStream.ofText source).remaining + 1) (.ofText source)
    { fresh with reporter := fresh.reporter.withFile fresh.path source })

theorem exists_statusTrace_of_freshStatuses {source : String}
    (h : freshStatuses source = some statuses) :
    ∃ u, StatusTrace .standard { fresh with reporter := fresh.reporter.withFile fresh.path source }
      (.ofText source) statuses u := by
  obtain ⟨u, hu⟩ := answer?_eq_some.mp h
  exact ⟨u, (statusTrace_eq_ok_iff (by decide) (by decide) (by decide)
    (TokenStream.genuine_ofText source) (Nat.lt_succ_self _)).mp hu⟩

/-- The same two statuses give two different ones for the runs, of which only one can be the worst. -/
theorem same_failures_differ :
    (∃ t u, runSource .standard failingThenBroken .byDistance fresh = .ok .grammarError t ∧
      StatusTrace .standard
        { fresh with reporter := fresh.reporter.withFile fresh.path failingThenBroken }
        (.ofText failingThenBroken) [.runtimeError, .grammarError] u) ∧
    (∃ t u, runSource .standard brokenThenFailing .byDistance fresh = .ok .runtimeError t ∧
      StatusTrace .standard
        { fresh with reporter := fresh.reporter.withFile fresh.path brokenThenFailing }
        (.ofText brokenThenFailing) [.grammarError, .runtimeError] u) ∧
    ¬ ∃ severity : Severity, severity.IsGreatest [.runtimeError, .grammarError] .grammarError ∧
      severity.IsGreatest [.grammarError, .runtimeError] .runtimeError := by
  have hrun : answer? (runSource .standard failingThenBroken .byDistance fresh) =
      some .grammarError := by decide +kernel
  have hrun' : answer? (runSource .standard brokenThenFailing .byDistance fresh) =
      some .runtimeError := by decide +kernel
  have hstatuses : freshStatuses failingThenBroken = some [.runtimeError, .grammarError] := by
    decide +kernel
  have hstatuses' : freshStatuses brokenThenFailing = some [.grammarError, .runtimeError] := by
    decide +kernel
  obtain ⟨t, ht⟩ := answer?_eq_some.mp hrun
  obtain ⟨t', ht'⟩ := answer?_eq_some.mp hrun'
  obtain ⟨u, hu⟩ := exists_statusTrace_of_freshStatuses hstatuses
  obtain ⟨u', hu'⟩ := exists_statusTrace_of_freshStatuses hstatuses'
  refine ⟨⟨t, u, ht, hu⟩, ⟨t', u', ht', hu'⟩, ?_⟩
  rintro ⟨severity, hgrammar, hruntime⟩
  have hle := hgrammar.2 .runtimeError (by decide)
  have hge := hruntime.2 .grammarError (by decide)
  exact severity.grammarError_ne_runtimeError (Nat.le_antisymm hge hle)

end Session

end Lox
