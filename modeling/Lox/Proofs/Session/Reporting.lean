import Lox.Proofs.Session.Scripts

/-!
# What a session reports

Reports are only ever added. Each is made by the reporter of the session and is either of a runtime
error or of an error in the text of the item that is being handled.
-/
namespace Lox

namespace Session
variable {upkeep : Upkeep} {limits : Limits} {s t u : Session} {item : Item} {items : List Item}

/-- The reports that `t` has behind those of `s` are made by the reporter of `s`, each of a runtime
error or of an error in the text of one of the items. -/
def Adds (limits : Limits) (items : List Item) (s t : Session) : Prop :=
  ∃ news, t.reports = s.reports ++ news ∧ ∀ r ∈ news, ∃ d, r = s.reporter.report d false ∧
    (d.stage = .runtime ∨ ∃ item ∈ items, ∃ next, problem? limits next item = some d)

namespace Adds

theorem nothing (h : t.reports = s.reports) : Adds limits items s t :=
  ⟨[], by rw [h, List.append_nil], nofun⟩

/-- What is added along an item, and then along others. -/
theorem cons (hreporter : u.reporter = s.reporter) (h : Adds limits [item] s u)
    (hrest : Adds limits items u t) : Adds limits (item :: items) s t := by
  obtain ⟨first, hfirst, hmade⟩ := h
  obtain ⟨rest, hrest, hbehind⟩ := hrest
  refine ⟨first ++ rest, by rw [hrest, hfirst, List.append_assoc], fun r hr => ?_⟩
  rcases List.mem_append.mp hr with hr | hr
  · obtain ⟨d, hd, hfrom⟩ := hmade r hr
    refine ⟨d, hd, hfrom.imp_right ?_⟩
    rintro ⟨other, hmem, hother⟩
    exact ⟨other, List.mem_singleton.mp hmem ▸ List.mem_cons_self, hother⟩
  · obtain ⟨d, hd, hfrom⟩ := hbehind r hr
    refine ⟨d, hd.trans (by rw [hreporter]), hfrom.imp_right ?_⟩
    rintro ⟨other, hmem, hother⟩
    exact ⟨other, List.mem_cons_of_mem _ hmem, hother⟩

end Adds

theorem reports_closed (s : Session) : s.closed.reports = s.reports := by
  unfold closed
  split <;> rfl

/-- The reports that an item adds. -/
theorem adds_of_handle {run : Bool} {status : Status}
    (h : handle upkeep limits item run s = .ok status t) : Adds limits [item] s t := by
  have hone : ∀ d : Diagnostic, t.reports = s.reports ++ [s.reporter.report d false] →
      (d.stage = .runtime ∨ problem? limits s.nextSite item = some d) → Adds limits [item] s t := by
    intro d hreports hd
    refine ⟨_, hreports, fun r hr => ⟨d, List.mem_singleton.mp hr, hd.imp_right fun hproblem => ?_⟩⟩
    exact ⟨item, List.mem_singleton_self _, _, hproblem⟩
  cases item with
  | error error =>
    cases h
    exact hone _ rfl (.inr rfl)
  | ok statement =>
    simp only [handle, perform] at h
    split at h
    · rename_i error _ hresolve
      cases h
      exact hone _ rfl (.inr (by rw [problem?, hresolve]))
    · cases h
    · split at h
      · unfold settle at h
        split at h
        · split at h <;> cases h <;> exact .nothing rfl
        · cases h
          exact hone _ rfl (.inl rfl)
        · cases h
        · cases h
      · cases h
        exact .nothing rfl

/-- The reports that some items add. -/
theorem adds_of_walk {status ended : Status}
    (h : walk upkeep limits items status s = .ok ended t) : Adds limits items s t := by
  induction items generalizing status s with
  | nil =>
    cases h
    exact .nothing rfl
  | cons item items ih =>
    rw [walk_cons rfl] at h
    generalize (decide (s.mode = .interactive) || decide (status = .ok)) = run at h
    cases hhandle : handle upkeep limits item run s with
    | error interruption u =>
      rw [hhandle] at h
      cases h
    | ok result u =>
      rw [hhandle] at h
      have hreporter : u.reporter = s.reporter := (SameSetting.handle hhandle).2.2
      have hfirst : Adds limits [item] s u := adds_of_handle hhandle
      cases result with
      | done =>
        cases h
        exact Adds.cons hreporter hfirst (.nothing rfl)
      | ok | grammarError => exact Adds.cons hreporter hfirst (ih h)
      | runtimeError =>
        simp only at h
        split at h
        · cases h
          exact Adds.cons hreporter hfirst (.nothing rfl)
        · exact Adds.cons hreporter hfirst (ih h)

end Session

end Lox
