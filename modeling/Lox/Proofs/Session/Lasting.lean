import Lox.Proofs.Scoping.Conduct
import Lox.Proofs.Scoping.Tables
import Lox.Proofs.Session.Histories

/-!
# What stays in the table

A session records the bindings of a statement before it executes it, and when it is through with the
statement it drops those outside of functions. Those inside functions stay for good, since a function
may be called at any time. So between two steps the table consists of the bindings inside functions
of all statements that have been resolved so far, whatever has become of these statements.
-/
namespace Lox
open Outcome

/-- The entry of the table for a binding. -/
def Binding.entry (b : Binding) : Site × Nat := (b.site, b.distance)

namespace Distances
variable {d : Distances} {bs : List Binding}

/-- Bindings at new sites are recorded in front of a table, the last one first. -/
theorem entries_record (hnodup : (bs.map Binding.site).Nodup)
    (hnew : ∀ b ∈ bs, ∀ entry ∈ d.entries, entry.1 ≠ b.site) :
    (d.record bs).entries = (bs.map Binding.entry).reverse ++ d.entries := by
  induction bs generalizing d with
  | nil => rfl
  | cons b bs ih =>
    rw [List.map_cons, List.nodup_cons] at hnodup
    have hinsert : (d.insert b).entries = b.entry :: d.entries :=
      congrArg (b.entry :: ·) (List.filter_eq_self.mpr fun entry hentry =>
        bne_iff_ne.mpr (hnew b List.mem_cons_self entry hentry))
    rw [record_cons, ih hnodup.2, hinsert, List.map_cons, List.reverse_cons, List.append_assoc]
    · rfl
    intro c hc entry hentry
    rw [hinsert] at hentry
    rcases List.mem_cons.mp hentry with rfl | hentry
    · exact fun heq => hnodup.1 (List.mem_map.mpr ⟨c, hc, heq.symm⟩)
    · exact hnew c (List.mem_cons_of_mem _ hc) entry hentry

/-- Of new bindings that are recorded, those inside functions are left once the transient ones are
forgotten; all that has been in the table before stays. -/
theorem entries_forget_record (hnodup : (bs.map Binding.site).Nodup)
    (hnew : ∀ b ∈ bs, ∀ entry ∈ d.entries, entry.1 ≠ b.site) :
    ((d.record bs).forget (transient bs)).entries =
      ((bs.filter (·.inFunction)).map Binding.entry).reverse ++ d.entries := by
  have hold : d.entries.filter (fun entry => !(transient bs).any (·.site == entry.1)) = d.entries := by
    refine List.filter_eq_self.mpr fun entry hentry => ?_
    have hne : ∀ b ∈ transient bs, b.site ≠ entry.1 := fun b hb =>
      Ne.symm (hnew b (List.mem_of_mem_filter hb) entry hentry)
    simpa using hne
  have hkept : ∀ b ∈ bs, (!(transient bs).any (·.site == b.site)) = b.inFunction := by
    intro b hb
    cases hin : b.inFunction with
    | false =>
      have hmem : b ∈ transient bs := List.mem_filter.mpr ⟨hb, by rw [hin]; rfl⟩
      simpa using ⟨b, hmem, rfl⟩
    | true =>
      simp only [Bool.not_eq_true', List.any_eq_false, beq_iff_eq]
      intro c hc heq
      obtain ⟨hc, hout⟩ := List.mem_filter.mp hc
      rw [List.inj_on_of_nodup_map hnodup hc hb heq, hin] at hout
      cases hout
  simp only [forget]
  rw [entries_record hnodup hnew, List.filter_append, hold, List.filter_reverse, List.filter_map]
  rw [List.filter_congr (q := (·.inFunction)) hkept]

end Distances

/-- A statement that has been resolved, and the bindings that have been found for it. -/
structure Resolved where
  statement : Stmt Site
  bindings : List Binding

/-- Bindings stand at the sites of their references, in their order. -/
theorem sites_bindings_sublist (vs : List Visit) :
    ((vs.filterMap Visit.binding?).map Binding.site).Sublist (vs.map Visit.site) := by
  induction vs with
  | nil => exact .slnil
  | cons v vs ih =>
    cases hb : v.binding? with
    | none => rw [List.filterMap_cons_none hb]; exact ih.cons _
    | some b =>
      rw [List.filterMap_cons_some hb, List.map_cons, Visit.site_of_binding? hb]
      exact ih.cons_cons _

namespace Resolved

/-- The references of the statement. -/
def visits (r : Resolved) : List Visit := r.statement.visits .outermost

/-- What stays of the statement in the table: the entries of its bindings inside functions. -/
def lasting (r : Resolved) : List (Site × Nat) :=
  (r.bindings.filter (·.inFunction)).map Binding.entry

/-- The bindings are those of the statement. -/
def Sound (r : Resolved) : Prop :=
  ∃ depth, r.statement.resolve depth = (.ok (), r.bindings)

variable {r : Resolved}

theorem Sound.bindings_eq (h : r.Sound) : r.bindings = r.visits.filterMap Visit.binding? := by
  obtain ⟨depth, hresolve⟩ := h
  exact Stmt.resolve_eq_ok hresolve

/-- The entries that stay are those of the references inside functions that have been bound. -/
theorem Sound.mem_lasting_iff (h : r.Sound) (hnodup : (r.visits.map Visit.site).Nodup) {site : Site}
    {distance : Nat} : (site, distance) ∈ r.lasting ↔
      ∃ v ∈ r.visits, v.site = site ∧ v.around.inFunction = true ∧
        ∃ b ∈ r.bindings, b.site = site ∧ b.distance = distance := by
  constructor
  · intro hmem
    obtain ⟨b, hb, hentry⟩ := List.mem_map.mp hmem
    cases hentry
    obtain ⟨hb, hin⟩ := List.mem_filter.mp hb
    obtain ⟨v, hv, hbinding⟩ := List.mem_filterMap.mp (h.bindings_eq ▸ hb)
    refine ⟨v, hv, (Visit.site_of_binding? hbinding).symm, ?_, b, hb, rfl, rfl⟩
    obtain ⟨_, -, rfl⟩ := Option.map_eq_some_iff.mp hbinding
    exact hin
  · rintro ⟨v, hv, hsite, hin, b, hb, hbsite, rfl⟩
    subst hsite
    obtain ⟨u, hu, hbinding⟩ := List.mem_filterMap.mp (h.bindings_eq ▸ hb)
    have huv : u = v := List.inj_on_of_nodup_map hnodup hu hv
      (by rw [← hbsite, Visit.site_of_binding? hbinding])
    have hfunction : b.inFunction = true := by
      obtain ⟨_, -, rfl⟩ := Option.map_eq_some_iff.mp hbinding
      rw [huv]
      exact hin
    exact List.mem_map.mpr ⟨b, List.mem_filter.mpr ⟨hb, hfunction⟩, by rw [← hbsite]; rfl⟩

/-- Every entry that stays is that of another reference, in the order of the references. -/
theorem Sound.sites_lasting (h : r.Sound) :
    (r.lasting.map Prod.fst).Sublist (r.visits.map Visit.site) := by
  have hbound : r.lasting.map Prod.fst = (r.bindings.filter (·.inFunction)).map Binding.site :=
    List.map_map
  rw [hbound, h.bindings_eq]
  exact (List.filter_sublist.map _).trans (sites_bindings_sublist r.visits)

end Resolved

namespace Session
variable {past : List Resolved} {s : Session} {limits : Limits}

/-- What a session resolves of an item when `next` is the next site: the statement, if the item is
one and nothing is wrong with its names. -/
def resolved (limits : Limits) (next : Site) : Item → List Resolved
  | .error _ => []
  | .ok statement =>
    match (statement.number next).1.resolve limits.scoping with
    | (.ok _, bindings) => [⟨(statement.number next).1, bindings⟩]
    | (.error _, _) => []

/-- Sessions that come of a new one, in either mode, and the statements that have been resolved on
the way. Steps are taken in streams of texts, each within limits of its own, with or without
executing the statement, and however a step ends the session may go on. -/
inductive Chronicle : List Resolved → Session → Prop where
  | start {mode : Mode} {path : String} {clock : Nat → Float} {reporter : Reporter} {s : Session}
    (h : start mode path clock reporter = .ok s) : Chronicle [] s
  | quoted {past : List Resolved} {s : Session} (hs : Chronicle past s) (source : String) :
    Chronicle past { s with reporter := s.reporter.withFile s.path source }
  | step {past : List Resolved} {s : Session} (hs : Chronicle past s) (limits : Limits)
    {stream : TokenStream} (hstream : stream.Genuine) (run : Bool) :
    Chronicle (past ++ resolved limits s.nextSite (stream.takeStatement limits.nesting).1)
      (final (step limits stream run .byDistance s))
  | close {past : List Resolved} {s : Session} (hs : Chronicle past s) : Chronicle past s.closed
  | pop {past : List Resolved} {s : Session} (hs : Chronicle past s) :
    Chronicle past (final (pop? s))
  | takeOutput {past : List Resolved} {s : Session} (hs : Chronicle past s) :
    Chronicle past s.takeOutput.2
  | takeReports {past : List Resolved} {s : Session} (hs : Chronicle past s) :
    Chronicle past s.takeReports.2

theorem Chronicle.history (h : Chronicle past s) : History s := by
  induction h with
  | start h => exact .start h
  | quoted _ source ih => exact ih.quoted source
  | step _ limits hstream run ih => exact ih.step limits hstream run
  | close _ ih => exact ih.close
  | pop _ ih => exact ih.pop
  | takeOutput _ ih => exact ih.takeOutput
  | takeReports _ ih => exact ih.takeReports

/-- A table holds what stays of statements whose references have different sites, all of them in
front of `next`. -/
structure Holds (past : List Resolved) (next : Site) (d : Distances) : Prop where
  sound : ∀ r ∈ past, r.Sound
  fresh : Fresh 0 next (past.flatMap Resolved.visits)
  entries : d.entries = (past.flatMap Resolved.lasting).reverse

namespace Holds
variable {next : Site} {d : Distances} {statement : Stmt Unit} {bindings : List Binding}

theorem nil : Holds [] 0 .empty := ⟨by simp, .nil 0, rfl⟩

/-- Every entry of the table is that of another reference. -/
theorem sites_sublist (h : Holds past next d) :
    (d.entries.map Prod.fst).reverse.Sublist ((past.flatMap Resolved.visits).map Visit.site) := by
  obtain ⟨hsound, -, hentries⟩ := h
  rw [hentries, List.map_reverse, List.reverse_reverse]
  clear hentries
  induction past with
  | nil => exact .slnil
  | cons r past ih =>
    rw [List.flatMap_cons, List.flatMap_cons, List.map_append, List.map_append]
    exact (hsound r List.mem_cons_self).sites_lasting.append
      (ih fun r' hr' => hsound r' (List.mem_cons_of_mem _ hr'))

/-- No two entries of the table are at the same site. -/
theorem nodup (h : Holds past next d) : (d.entries.map Prod.fst).Nodup :=
  List.nodup_reverse.mp (h.fresh.nodup.sublist h.sites_sublist)

theorem site_lt (h : Holds past next d) {entry : Site × Nat} (hentry : entry ∈ d.entries) :
    entry.1 < next := by
  have hsite := h.sites_sublist.subset
    (List.mem_reverse.mpr (List.mem_map.mpr ⟨entry, hentry, rfl⟩))
  obtain ⟨v, hv, heq⟩ := List.mem_map.mp hsite
  exact heq ▸ h.fresh.upper v hv

/-- The references of each statement have different sites. -/
theorem nodup_visits (h : Holds past next d) {r : Resolved} (hr : r ∈ past) :
    (r.visits.map Visit.site).Nodup := by
  have hall := h.fresh.nodup
  rw [List.map_flatMap] at hall
  exact (List.nodup_flatMap.mp hall).1 r hr

/-- The table consists of the bindings of references inside functions, with their distances. -/
theorem mem_entries_iff (h : Holds past next d) {site : Site} {distance : Nat} :
    (site, distance) ∈ d.entries ↔
      ∃ r ∈ past, ∃ v ∈ r.visits, v.site = site ∧ v.around.inFunction = true ∧
        ∃ b ∈ r.bindings, b.site = site ∧ b.distance = distance := by
  rw [h.entries, List.mem_reverse, List.mem_flatMap]
  exact exists_congr fun r => and_congr_right fun hr =>
    (h.sound r hr).mem_lasting_iff (h.nodup_visits hr)

/-- Another statement has been resolved and is through with. -/
theorem concat (h : Holds past next d) {depth : Nat}
    (hresolve : (statement.number next).1.resolve depth = (.ok (), bindings)) :
    Holds (past ++ [⟨(statement.number next).1, bindings⟩]) (statement.number next).2
      ((d.record bindings).forget (transient bindings)) := by
  have hsound : Resolved.Sound ⟨(statement.number next).1, bindings⟩ := ⟨depth, hresolve⟩
  have hfresh := statement.fresh_number .outermost next
  have hbindings : bindings = _ := hsound.bindings_eq
  have hsites : (bindings.map Binding.site).Nodup := hbindings ▸ nodup_sites_bindings hfresh.nodup
  have hnew : ∀ b ∈ bindings, ∀ entry ∈ d.entries, entry.1 ≠ b.site := by
    intro b hb entry hentry
    obtain ⟨v, hv, hbinding⟩ := List.mem_filterMap.mp (hbindings ▸ hb)
    rw [Visit.site_of_binding? hbinding]
    exact Nat.ne_of_lt (Nat.lt_of_lt_of_le (h.site_lt hentry) (hfresh.lower v hv))
  refine ⟨fun r hr => ?_, ?_, ?_⟩
  · rcases List.mem_append.mp hr with hr | hr
    · exact h.sound r hr
    · exact List.mem_singleton.mp hr ▸ hsound
  · rw [List.flatMap_append, List.flatMap_singleton]
    exact h.fresh.append hfresh
  · rw [Distances.entries_forget_record hsites hnew, h.entries, List.flatMap_append,
      List.flatMap_singleton, List.reverse_append]
    rfl

end Holds

/-- What becomes of the table when a statement is performed, with or without executing it. -/
theorem Performed.holds {statement : Stmt Unit} {run : Bool}
    {r : EStateM.Result Interruption Session Status}
    (h : Performed limits (statement.number s.nextSite).1 (statement.number s.nextSite).2 s run r)
    (hs : Holds past s.nextSite s.machine.distances) :
    Holds (past ++ resolved limits s.nextSite (.ok statement)) (final r).nextSite
      (final r).machine.distances := by
  have hdone : ∀ {bindings : List Binding} {m : Machine},
      (statement.number s.nextSite).1.resolve limits.scoping = (.ok (), bindings) →
      m.distances = s.machine.distances.record bindings →
      Holds (past ++ resolved limits s.nextSite (.ok statement)) (statement.number s.nextSite).2
        (m.distances.forget (transient bindings)) := by
    intro bindings m hresolve hm
    have hresolved : resolved limits s.nextSite (.ok statement) =
        [⟨(statement.number s.nextSite).1, bindings⟩] := by
      simp only [resolved, hresolve]
    rw [hresolved, hm]
    exact hs.concat hresolve
  have hrun : ∀ {bindings : List Binding} {r : EStateM.Result Stop Machine Value},
      Run.interpret limits.rounds limits.execution (statement.number s.nextSite).1
        (s.recorded bindings (statement.number s.nextSite).2).machine = r →
      (final r).distances = s.machine.distances.record bindings :=
    fun hr => hr ▸ Run.distances_interpret _ _ _ _
  cases h with
  | unresolved hresolve =>
    have hresolved : resolved limits s.nextSite (.ok statement) = [] := by
      simp only [resolved, hresolve]
    rw [hresolved, List.append_nil]
    exact hs
  | passed hresolve => exact hdone hresolve rfl
  | done hresolve hr | ok hresolve hr | runtimeError hresolve hr | unfinished hresolve hr =>
    exact hdone hresolve (hrun hr)

/-- The table of a session holds what stays of the statements of its chronicle. -/
theorem Chronicle.holds (h : Chronicle past s) : Holds past s.nextSite s.machine.distances := by
  induction h with
  | start h =>
    obtain ⟨hmachine, hnext, -, -⟩ := start_eq_ok h
    rw [hmachine, hnext]
    exact .nil
  | quoted hs source ih => exact ih
  | @step _ s hs limits stream hstream run ih =>
    obtain ⟨_, hregular⟩ := hs.history.regular
    rw [final_step]
    have hitem := hstream.regular_takeStatement limits.nesting
    cases hread : (stream.takeStatement limits.nesting).1 with
    | error e =>
      rw [resolved, List.append_nil]
      exact ih
    | ok statement =>
      rw [hread] at hitem
      exact ((Next.of_item hregular hitem).performed limits run).holds ih
  | @close _ s _ ih =>
    cases hmode : s.mode with
    | script => rwa [closed_of_script hmode]
    | interactive => rwa [closed_of_interactive hmode]
  | @pop _ s _ ih =>
    obtain ⟨mode, path, machine, nextSite, results, reporter, reports⟩ := s
    cases results <;> exact ih
  | takeOutput hs ih => exact ih
  | takeReports hs ih => exact ih

/-- Running sources continues a chronicle. -/
theorem Chronicle.persists (past : List Resolved) (limits : Limits) :
    Persists (fun s => ∃ more, Chronicle (past ++ more) s) (fun _ => True) TokenStream.Genuine limits where
  quoted := fun ⟨more, hs⟩ source => ⟨more, hs.quoted source⟩
  step := by
    rintro s stream ⟨more, hs⟩ hstream run
    have hnext := hs.step limits hstream run
    rw [List.append_assoc] at hnext
    generalize Session.step limits stream run .byDistance s = r at hnext ⊢
    cases r with
    | ok ended t => exact ⟨_, hnext⟩
    | error interruption t => exact ⟨trivial, _, hnext⟩
  close := fun ⟨more, hs⟩ => ⟨more, hs.close⟩
  text := TokenStream.genuine_ofText
  rest h := h.takeStatement limits.nesting

/-- Between the steps of a session, in either mode and whatever has happened before, the table has
exactly one entry for each reference that stands inside a function of a statement that has been
resolved and that has been bound to a local scope, with the distance that was found then; different
references have different sites, so no entry stands for two of them. Running further sources goes on
in this way, and no evaluation or execution changes the table. -/
theorem entries_iff_inFunction (h : Chronicle past s) :
    (s.machine.distances.entries.map Prod.fst).Nodup ∧
      (∀ site distance, (site, distance) ∈ s.machine.distances.entries ↔
        ∃ r ∈ past, ∃ v ∈ r.statement.visits .outermost, v.site = site ∧
          v.around.inFunction = true ∧ ∃ b ∈ r.bindings, b.site = site ∧ b.distance = distance) ∧
      ((past.flatMap fun r => r.statement.visits .outermost).map Visit.site).Nodup ∧
      (∀ r ∈ past, ∃ depth, r.statement.resolve depth = (.ok (), r.bindings)) ∧
      (∀ (limits : Limits) (sources : List String), ∃ more, Chronicle (past ++ more)
        (final (sources.mapM (fun source => runSource limits source) s))) ∧
      ∀ (rounds depth : Nat) (m : Machine),
        (∀ e, (final (Run.evaluate rounds depth e m)).distances = m.distances) ∧
        (∀ statement, (final (Access.byDistance.execute rounds depth statement m)).distances =
          m.distances) ∧
        ∀ statement, (final (Run.interpret rounds depth statement m)).distances = m.distances := by
  have hholds := h.holds
  refine ⟨hholds.nodup, fun site distance => hholds.mem_entries_iff, hholds.fresh.nodup,
    hholds.sound, fun limits sources => ?_, fun rounds depth m =>
      ⟨fun e => Run.distances_evaluate rounds depth e m,
        fun statement => Run.distances_execute rounds depth statement m,
        fun statement => Run.distances_interpret rounds depth statement m⟩⟩
  have hstays := (Chronicle.persists past limits).mapM sources ⟨[], (List.append_nil past).symm ▸ h⟩
  generalize sources.mapM (fun source => runSource limits source) s = r at hstays ⊢
  cases r with
  | ok statuses t => exact hstays
  | error interruption t => exact hstays.2

/-- A block with a function that reads a variable of the block, which is also read outside of the
function: of the two references only the one in the function stays. -/
theorem entries_iff_inFunction_of_block :
    ∃ past s, Chronicle past s ∧ s.machine.distances.entries = [(2, 1)] ∧
      ∃ r ∈ past, ∃ v ∈ r.statement.visits .outermost, v.site = 2 ∧ v.around.inFunction = true ∧
        ∃ b ∈ r.bindings, b.site = 2 ∧ b.distance = 1 := by
  have hstart : start .interactive "<in>" (fun _ => 0) (.initial true) =
      .ok ⟨.interactive, "<in>", .initial fun _ => 0, 0, [],
        { (Reporter.initial true).withFile "<in>" "" with fatal := false }, []⟩ := rfl
  have hs := (Chronicle.start hstart).step .standard
    (TokenStream.genuine_ofText "{ var a; fun f() { return a; } print a; }") true
  exact ⟨_, _, hs, by decide +kernel,
    ((entries_iff_inFunction hs).2.1 2 1).mp (by decide +kernel)⟩

end Session

end Lox
