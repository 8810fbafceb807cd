import Lox.Proofs.Declaring.Recording
import Lox.Proofs.Session.Breaking
import Lox.Proofs.Session.Restoring

/-!
# Declaring a name again

When a statement can be resolved, none of its scopes declares a name twice. Still a declaration can be
executed twice in one frame, if it stands in the body of a loop without a block in between. That is
the only way in which a declaration can fail in a frame other than the globals: neither two
declarations nor the parameters of a call ever get in each other's way.
-/
namespace Lox
open Outcome

/-- The statement at the end of one way is a part of the body of the loop at the end of another one,
with no block in between. -/
def Route.Around (outer place : Route) : Prop :=
  ∃ inner, place = inner ++ .body :: outer

/-- A collision in another frame than the one in which the run is executed: a statement has been
executed there before, and a loop around it has gone round since. -/
theorem Records.exists_loop {current frame : FrameId} {own : List Act → Prop} {s s' : Store}
    {entries front back : Entries} {declarer : Declarer} {name : String}
    (h : Records current own s entries s') (hframe : frame ≠ current)
    (heq : entries = front ++ (frame, .collides declarer name) :: back) :
    ∃ (scope : Scope) (place outer : Route) (before between : List Act),
      scope.Trail (entries.of frame) ∧ declarer = .statement place ∧ outer.Around place ∧
        front.of frame = before ++ .declares declarer name :: between ∧ .round outer ∈ between := by
  have hof : entries.of frame =
      front.of frame ++ .collides declarer name :: Entries.of back frame := by
    rw [heq, Entries.of_append, show (frame, Act.collides declarer name) :: back =
      [(frame, .collides declarer name)] ++ back from rfl, Entries.of_append, Entries.of_singleton]
    rfl
  have hnew : s.next ≤ frame := by
    by_contra hold
    rw [h.others frame (Nat.not_le.mp hold) hframe] at hof
    simp at hof
  obtain ⟨scope, hdistinct, htrail⟩ := h.activations frame hnew
  -- The frame was empty when it was made, so the name has been declared in it.
  have hname := h.collisions heq
  rw [Store.names_eq_nil (Nat.not_lt.mpr hnew), List.nil_append] at hname
  obtain ⟨declarer', hdeclares⟩ := Act.mem_bound_iff.mp hname
  obtain ⟨before, between, hfront⟩ := List.append_of_mem hdeclares
  have hacts : entries.of frame = before ++ .declares declarer' name ::
      (between ++ .collides declarer name :: Entries.of back frame) := by
    rw [hof, hfront]
    simp
  obtain ⟨rfl, inner, outer, rfl, hround⟩ := htrail.tried_twice hdistinct hacts (.inl rfl) (.inr rfl)
  exact ⟨scope, _, outer, before, between, htrail, rfl, ⟨inner, rfl⟩, hfront, hround⟩

namespace Session
variable {s t : Session} {limits : Limits}

theorem History.tidy (hs : History s) : s.machine.Tidy :=
  ⟨hs.reached.1.sound, hs.distinct⟩

/-- A statement that has been resolved in a session declares no name of a scope twice. -/
theorem History.resolved (hs : History s) {statement : Stmt Unit} {numbered : Stmt Site}
    {bindings : List Binding}
    (hresolve : resolve limits statement s = .ok (.ok (numbered, bindings)) t) :
    (∀ scope ∈ numbered.scopes, scope.Distinct) ∧ t.machine.Tidy ∧
      t.machine.current = Machine.globals := by
  obtain ⟨after, -, hresolved, rfl⟩ := of_resolve_eq_ok hresolve
  refine ⟨fun scope hscope => Stmt.nodup_names_of_resolve hresolved hscope, ?_, hs.reached.2⟩
  exact ⟨hs.tidy.sound.congr rfl rfl, hs.tidy.distinct⟩

/-- A statement that can be resolved is traced in every session. The trace notes all names that are
bound, and where it stops if one is bound already. If that happens in another frame than the globals,
then the declaration is a statement that has been executed in this frame before, and since then a loop
has gone round in whose body it stands with no block in between. -/
theorem History.declares_again_by_loop (hs : History s) {statement : Stmt Unit} {numbered : Stmt Site}
    {bindings : List Binding}
    (hresolve : resolve limits statement s = .ok (.ok (numbered, bindings)) t) :
    ∃ entries : Entries,
      Trace.interpret limits.rounds limits.execution numbered ⟨t.machine, []⟩ =
        Diary.result entries
          (Run.interpret limits.rounds limits.execution numbered t.machine) ∧
      (∀ frame, (final (Run.interpret limits.rounds limits.execution numbered
          t.machine)).store.names frame =
        t.machine.store.names frame ++ Act.bound (entries.of frame)) ∧
      (∀ name, Redeclares name (Run.interpret limits.rounds limits.execution numbered t.machine) →
        ∃ front frame declarer, entries = front ++ [(frame, .collides declarer name)]) ∧
      ∀ (front back : Entries) (frame : FrameId) (declarer : Declarer) (name : String),
        entries = front ++ (frame, .collides declarer name) :: back → frame ≠ Machine.globals →
          ∃ (scope : Scope) (place outer : Route) (before between : List Act),
            scope.Trail (entries.of frame) ∧ declarer = .statement place ∧ outer.Around place ∧
              front.of frame = before ++ .declares declarer name :: between ∧
                .round outer ∈ between := by
  obtain ⟨hscopes, htidy, hcurrent⟩ := hs.resolved hresolve
  obtain ⟨entries, heq, hrecords, hends⟩ :=
    notes_interpret limits.rounds limits.execution htidy hscopes []
  rw [hcurrent] at hrecords
  exact ⟨entries, heq, hrecords.names, hends, fun _ _ _ _ _ hentries hframe =>
    hrecords.exists_loop hframe hentries⟩

/-- A block in which a variable is declared in a loop. -/
def declaringLoop : Stmt Unit :=
  .block () [.loop (.literal (.bool true)) (.variable ⟨.identifier, "x", none, 1⟩ none)]

theorem History.declares_again_by_loop_of_block :
    ∃ numbered bindings t, resolve .standard declaringLoop fresh = .ok (.ok (numbered, bindings)) t ∧
      Redeclares "x" (Run.interpret Limits.standard.rounds Limits.standard.execution numbered
        t.machine) ∧
      ∃ (front : Entries) (place outer : Route) (before between : List Act),
        (final (Trace.interpret Limits.standard.rounds Limits.standard.execution numbered
          ⟨t.machine, []⟩)).entries = front ++ [(1, .collides (.statement place) "x")] ∧
        outer.Around place ∧ front.of 1 = before ++ .declares (.statement place) "x" :: between ∧
          .round outer ∈ between := by
  obtain ⟨numbered, bindings, t, hresolve, hrun, hnoted⟩ : ∃ numbered bindings t,
      resolve .standard declaringLoop fresh = .ok (.ok (numbered, bindings)) t ∧
        Redeclares "x" (Run.interpret Limits.standard.rounds Limits.standard.execution numbered
          t.machine) ∧
        (final (Trace.interpret Limits.standard.rounds Limits.standard.execution numbered
          ⟨t.machine, []⟩)).entries =
          [(1, .round [.item 0]), (1, .declares (.statement [.body, .item 0]) "x"),
            (1, .round [.item 0])] ++ [(1, .collides (.statement [.body, .item 0]) "x")] :=
    ⟨_, _, _, rfl, ⟨_, _, rfl⟩, rfl⟩
  obtain ⟨entries, htrace, -, -, hloop⟩ := History.declares_again_by_loop history_fresh hresolve
  have hentries := hnoted
  rw [htrace, Diary.entries_result] at hentries
  obtain ⟨-, place, outer, before, between, -, hplace, haround, hfront, hround⟩ :=
    hloop _ [] 1 _ "x" hentries (by decide)
  cases hplace
  exact ⟨numbered, bindings, t, hresolve, hrun, _, _, outer, before, between, hnoted, haround, hfront,
    hround⟩

end Session

end Lox
