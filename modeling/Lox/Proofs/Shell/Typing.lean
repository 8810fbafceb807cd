import Lox.Proofs.Shell.Continuation
import Lox.Shell.Basic

/-!
# Lines typed into a shell

While lines wait, a line that is not empty is source as it stands, and an empty one is passed over.
What waits is always a text that leaves something open, and a line break.
-/
namespace Lox

namespace Shell
variable {limits : Limits} {shell next last : Shell} {line : String} {lines : List String}
  {answers : List (Bool × String)}

/-- What the shell answers to lines that are typed one after the other, also behind one that stops
it: whether it stops, and what it writes. There is no outcome if a source does not end. -/
def typed (limits : Limits) (shell : Shell) : List String → Option (List (Bool × String) × Shell)
  | [] => some ([], shell)
  | line :: rest => do
    let (stop, output, next) ← shell.enter limits line
    let (answers, last) ← next.typed limits rest
    return ((stop, output) :: answers, last)

theorem typed_cons_eq_some :
    shell.typed limits (line :: lines) = some (answers, last) ↔
      ∃ stop output next later, shell.enter limits line = some (stop, output, next) ∧
        next.typed limits lines = some (later, last) ∧ answers = (stop, output) :: later := by
  simp only [typed, bind, Option.bind_eq_some_iff, pure, Option.some.injEq, Prod.exists,
    Prod.mk.injEq]
  constructor
  · rintro ⟨stop, output, next, henter, later, last', hlater, rfl, rfl⟩
    exact ⟨stop, output, next, later, henter, hlater, rfl⟩
  · rintro ⟨stop, output, next, later, henter, hlater, rfl⟩
    exact ⟨stop, output, next, henter, later, last, hlater, rfl, rfl⟩

theorem typed_cons {stop : Bool} {output : String}
    (h : shell.enter limits line = some (stop, output, next)) :
    shell.typed limits (line :: lines) =
      (next.typed limits lines).map fun later => ((stop, output) :: later.1, later.2) := by
  simp only [typed, h, bind, Option.bind_some]
  cases next.typed limits lines <;> rfl

/-- A line that is run at once, with the lines that wait before it. -/
theorem typed_run {source : String} (h : action shell.pending line = .run source) :
    shell.typed limits [line] =
      (run limits shell.session source).map fun ran => ([(false, ran.1)], ran.2) := by
  simp only [typed, enter, h, bind, pure]
  cases run limits shell.session source <;> rfl

/-- Behind lines that wait, an empty line does nothing. -/
theorem action_empty {pending : String} (hwaiting : pending ≠ "") : action pending "" = .ignore := by
  simp [action, read, hwaiting]

/-- Behind lines that wait, any other line is source. It waits with them or is run together with
them. -/
theorem action_line {pending : String} (hwaiting : pending ≠ "") (hline : line ≠ "") :
    action pending line =
      if leavesOpen (pending ++ line) then .wait (pending ++ line ++ "\n")
      else .run (pending ++ line) := by
  simp [action, read, hwaiting, hline]

/-! ## What waits -/

/-- What can wait in a shell: nothing, or a text that leaves something open, and its line break. -/
def Waits (pending : String) : Prop :=
  pending = "" ∨ ∃ text, leavesOpen text ∧ pending = text ++ "\n"

/-- Nothing waits behind a source that has been run. -/
theorem pending_of_run {session : Session} {source output : String}
    (h : run limits session source = some (output, next)) : next.pending = "" := by
  rw [run] at h
  split at h
  · cases h
    rfl
  · cases h
  · cases h
    rfl

theorem Waits.enter {stop : Bool} {output : String} (hshell : Waits shell.pending)
    (h : shell.enter limits line = some (stop, output, next)) : Waits next.pending := by
  rw [Shell.enter] at h
  cases haction : action shell.pending line with
  | ignore =>
    rw [haction] at h
    cases h
    exact hshell
  | command command =>
    rw [haction] at h
    cases h
    exact hshell
  | wait pending =>
    rw [haction] at h
    cases h
    -- only a source that leaves something open is made to wait
    simp only [action] at haction
    split at haction
    · cases haction
    · cases haction
    · split at haction
      next hopen =>
        cases haction
        exact .inr ⟨_, hopen, rfl⟩
      next => cases haction
  | run source =>
    rw [haction] at h
    obtain ⟨⟨output', next'⟩, hrun, hnext⟩ := Option.map_eq_some_iff.1 h
    cases hnext
    exact .inl (pending_of_run hrun)

theorem Waits.typed (hshell : Waits shell.pending)
    (h : shell.typed limits lines = some (answers, last)) : Waits last.pending := by
  induction lines generalizing shell answers with
  | nil =>
    cases h
    exact hshell
  | cons line lines ih =>
    obtain ⟨stop, output, next, later, henter, hlater, -⟩ := typed_cons_eq_some.1 h
    exact ih (hshell.enter henter) hlater

end Shell

end Lox
