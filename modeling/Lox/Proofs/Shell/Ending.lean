import Lox.Proofs.Shell.Typing

/-!
# The end of the input of a shell

At its end the input delivers the line `EOF` over and over. A shell where no line waits stops at the
first of them. While lines wait the word is source like any other, and it closes nothing, so a shell
whose input ends there never stops.
-/
namespace Lox

namespace Shell
variable {limits : Limits} {clock : Nat → Float} {reporter : Reporter} {start shell next : Shell}
  {text : String} {lines : List String} {answers : List (Bool × String)}

theorem waits_start (h : Shell.start clock reporter = .ok start) : Waits start.pending := by
  rw [Shell.start] at h
  cases hsession : Session.start .interactive Session.terminalPath clock reporter with
  | error d =>
    rw [hsession] at h
    cases h
  | ok session =>
    rw [hsession] at h
    cases h
    exact .inl rfl

/-- The shell stops sometime if its input delivers nothing but its end. -/
def Ends (limits : Limits) (shell : Shell) : Prop :=
  ∃ count answers last, shell.typed limits (List.replicate count "EOF") = some (answers, last) ∧
    true ∈ answers.map Prod.fst

/-- The shell, with the end of the input behind the lines that wait, as often as it has been
delivered. -/
def swallow (shell : Shell) (count : Nat) : Shell :=
  { shell with pending := shell.pending ++ String.join (List.replicate count "EOF\n") }

theorem enter_stops (h : shell.pending = "") :
    shell.enter limits "EOF" = some (true, "\n", shell) := by
  have hread : action "" "EOF" = .command .endOfInput := by decide +kernel
  rw [enter, h, hread]
  rfl

/-- The name of the command leaves open what is open behind it. -/
theorem leavesOpen_endOfInput (hopen : leavesOpen text) : leavesOpen (text ++ "\n" ++ "EOF") := by
  obtain ⟨region, balance, hstate⟩ := exists_leavesOpenFrom_append .code 0 text.toList
  have hbefore : leavesOpenFrom region balance [] := by
    rw [← hstate [] (by simp), List.append_nil]
    exact hopen
  have hafter : leavesOpenFrom region balance ['\n', 'E', 'O', 'F'] := by
    cases region <;> simp_all [leavesOpenFrom]
  have hline : (text ++ "\n" ++ "EOF").toList = text.toList ++ ['\n', 'E', 'O', 'F'] := by simp
  rw [leavesOpen, hline, hstate _ (by simp)]
  exact hafter

theorem Waits.enter_endOfInput (hshell : Waits shell.pending) (hwaiting : shell.pending ≠ "") :
    shell.enter limits "EOF" = some (false, "", shell.swallow 1) := by
  obtain hnone | ⟨text, hopen, hpending⟩ := hshell
  · exact absurd hnone hwaiting
  · have hbehind : leavesOpen (shell.pending ++ "EOF") := by
      rw [hpending]
      exact leavesOpen_endOfInput hopen
    rw [Shell.enter, action_line hwaiting (by decide), if_pos hbehind, swallow, String.append_assoc]
    rfl

theorem swallow_zero : shell.swallow 0 = shell := by
  simp [swallow]

theorem swallow_succ (count : Nat) : shell.swallow (count + 1) = (shell.swallow 1).swallow count := by
  simp [swallow, List.replicate_succ, String.append_assoc]

/-- While lines wait, the end of the input is a line that waits as well. -/
theorem Waits.typed_endOfInput (hshell : Waits shell.pending) (hwaiting : shell.pending ≠ "")
    (count : Nat) :
    shell.typed limits (List.replicate count "EOF") =
      some (List.replicate count (false, ""), shell.swallow count) := by
  induction count generalizing shell with
  | zero =>
    rw [swallow_zero]
    rfl
  | succ count ih =>
    have henter : shell.enter limits "EOF" = some (false, "", shell.swallow 1) :=
      hshell.enter_endOfInput hwaiting
    have hnext : (shell.swallow 1).pending ≠ "" := by simp [swallow]
    refine typed_cons_eq_some.2 ⟨false, "", shell.swallow 1, List.replicate count (false, ""),
      henter, ?_, rfl⟩
    rw [ih (hshell.enter henter) hnext, ← swallow_succ]

theorem Waits.ends_iff (hshell : Waits shell.pending) : shell.Ends limits ↔ shell.pending = "" := by
  constructor
  · rintro ⟨count, answers, last, htyped, hstop⟩
    by_cases hwaiting : shell.pending = ""
    · exact hwaiting
    · rw [hshell.typed_endOfInput hwaiting] at htyped
      cases htyped
      simp at hstop
  · intro hnone
    refine ⟨1, [(true, "\n")], shell, ?_, by simp⟩
    exact typed_cons_eq_some.2 ⟨true, "\n", shell, [], enter_stops hnone, rfl, rfl⟩

/-- While lines are typed that do not stop it, a shell goes through the lines one by one, and then
comes the end of the input. -/
theorem isSome_converse (htyped : shell.typed limits lines = some (answers, next))
    (hrunning : true ∉ answers.map Prod.fst) (hnext : Waits next.pending) :
    (shell.converse limits lines).isSome ↔ next.pending = "" := by
  induction lines generalizing shell answers with
  | nil =>
    cases htyped
    by_cases hnone : next.pending = ""
    · simp [converse, enter_stops hnone, hnone]
    · simp [converse, hnext.enter_endOfInput hnone, hnone]
  | cons line lines ih =>
    obtain ⟨stop, output, behind, later, henter, hlater, rfl⟩ := typed_cons_eq_some.1 htyped
    have hstop : stop = false := by
      cases stop with
      | false => rfl
      | true => simp at hrunning
    have hrest := ih hlater (fun h => hrunning (List.mem_cons_of_mem _ h))
    rw [← hrest, converse, henter, hstop]
    cases hconverse : behind.converse limits lines <;> simp [hconverse]

/-- A shell into which lines have been typed ends with its input exactly if none of them waits. Then
the first end of the input stops it, with a line break. Otherwise each of them waits as one line more,
with nothing written and nothing run, for ever. -/
theorem ends_iff_nothing_waits (hstart : Shell.start clock reporter = .ok start)
    (htyped : start.typed limits lines = some (answers, shell)) :
    (shell.Ends limits ↔ shell.pending = "") ∧
    (shell.pending = "" → shell.enter limits "EOF" = some (true, "\n", shell)) ∧
    (shell.pending ≠ "" → ∀ count, shell.typed limits (List.replicate count "EOF") =
      some (List.replicate count (false, ""), shell.swallow count)) ∧
    (true ∉ answers.map Prod.fst →
      ((start.converse limits lines).isSome ↔ shell.pending = "")) := by
  have hshell : Waits shell.pending := (waits_start hstart).typed htyped
  exact ⟨hshell.ends_iff, enter_stops, fun hwaiting => hshell.typed_endOfInput hwaiting,
    fun hrunning => isSome_converse htyped hrunning hshell⟩

/-- An opening parenthesis waits for the closing one. -/
theorem exists_typed_parenthesis :
    ∃ start, Shell.start (fun _ => 0) (.initial true) = .ok start ∧
      start.typed .standard ["("] = some ([(false, "")], { start with pending := "(\n" }) := by
  have haction : action "" "(" = .wait "(\n" := by decide +kernel
  refine ⟨_, rfl, typed_cons_eq_some.2 ⟨false, "", _, [], ?_, rfl, rfl⟩⟩
  rw [enter, haction]

theorem ends_iff_nothing_waits_parenthesis :
    ∃ start shell answers, Shell.start (fun _ => 0) (.initial true) = .ok start ∧
      start.typed .standard ["("] = some (answers, shell) ∧
      (shell.Ends .standard ↔ shell.pending = "") ∧
      (shell.pending = "" → shell.enter .standard "EOF" = some (true, "\n", shell)) ∧
      (shell.pending ≠ "" → ∀ count, shell.typed .standard (List.replicate count "EOF") =
        some (List.replicate count (false, ""), shell.swallow count)) ∧
      (true ∉ answers.map Prod.fst →
        ((start.converse .standard ["("]).isSome ↔ shell.pending = "")) := by
  obtain ⟨start, hstart, htyped⟩ := exists_typed_parenthesis
  exact ⟨start, _, _, hstart, htyped, ends_iff_nothing_waits hstart htyped⟩

/-- Not every shell ends with its input: one where a parenthesis is open does not. -/
theorem parenthesis_never_ends :
    ∃ start shell answers, Shell.start (fun _ => 0) (.initial true) = .ok start ∧
      start.typed .standard ["("] = some (answers, shell) ∧ ¬ shell.Ends .standard := by
  obtain ⟨start, hstart, htyped⟩ := exists_typed_parenthesis
  refine ⟨start, _, _, hstart, htyped, fun hends => ?_⟩
  have hnone := ((waits_start hstart).typed htyped).ends_iff.1 hends
  simp at hnone

end Shell

end Lox
