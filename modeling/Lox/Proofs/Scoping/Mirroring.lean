import Lox.Proofs.Scoping.Driving
import Lox.Proofs.Scoping.Reaching

/-!
# Frames mirror scopes

The resolver walks through a text once, the machine executes its parts in any order and as often as
it likes. Still, whenever a reference is evaluated, the frames around the current one are those of
the scopes that the resolver was in when it bound the reference. So the frame at the distance of a
reference is the one that its declaration is executed in, whatever has been declared or called in
between.
-/
namespace Lox
open Outcome

namespace Access
variable {α : Type}

open Classical in
/-- The access by distance, guarded by a condition on references and machines: where the condition
fails, something else happens. -/
noncomputable def guarded (condition : Site → Token → Machine → Prop) (alarm : Access) : Access where
  read site name m :=
    if condition site name m then Run.read site name m else alarm.read site name m
  write site name value m :=
    if condition site name m then Run.write site name value m else alarm.write site name value m

/-- A condition holds at every moment of a run at which a reference is read or assigned to: whatever
would happen where it fails, does not happen. -/
def Always (condition : Site → Token → Machine → Prop) (run : Access → Run α) (m : Machine) : Prop :=
  ∀ alarm, run (guarded condition alarm) m = run byDistance m

/-- The only moment of reading a reference is the one at which it is read. -/
theorem always_read_iff {condition : Site → Token → Machine → Prop} {site : Site} {name : Token}
    {m : Machine} :
    Always condition (fun access => access.read site name) m ↔ condition site name m := by
  constructor
  · intro h
    by_contra hfails
    -- The alarm gives a value where the access by distance does not, and stops where it does.
    have halarm := h ⟨fun _ _ m => match Run.read site name m with
      | .ok _ m => .error .unfinished m
      | .error _ m => .ok .nil m, fun _ _ _ => throw .unfinished⟩
    simp only [guarded, hfails, if_false, byDistance] at halarm
    cases hread : Run.read site name m with
    | ok value m' => simp [hread] at halarm
    | error stop m' => simp [hread] at halarm
  · intro h alarm
    simp [guarded, h, byDistance]

end Access

/-- A frame stems from a scope: it was made for an execution of the scope's block or for a call of
its function, and all names that it binds are declared by the scope. -/
def Store.StemsFrom (s : Store) (id : FrameId) (scope : Scope) : Prop :=
  ∃ f, s.frames[id]? = some f ∧ f.origin = some scope.site ∧ ∀ name ∈ f.names, name ∈ scope.names

/-- The frames around the current one mirror the scopes of a walk that binds a reference: the local
ones, `locals`, stem from the scopes that the walk is in, and `owner` is the frame of the innermost
scope that declares the name. -/
structure Machine.Mirrors (m : Machine) (there : Walk) (path : List Scope) (name : Token)
    (distance : Nat) (locals : List FrameId) (owner : FrameId) : Prop where
  chain : m.store.chain m.current = locals ++ [globals]
  depth : locals.length = there.scopes.length
  stems : List.Forall₂ m.store.StemsFrom locals path
  scopes : List.Forall₂ (fun names scope => ∀ name ∈ names, name ∈ scope.names) there.scopes path
  innermost : findScope name.lexeme there.scopes = some distance
  ancestor : m.store.ancestor? m.current distance = some owner
  isLocal : locals[distance]? = some owner ∧ owner ≠ globals
  history : ∃ deeds, m.store.History deeds
  /-- Once the declaration has been executed in that frame, reference and assignment succeed. -/
  declared : ∀ deeds, m.store.History deeds → ∀ value, Deed.declare owner name.lexeme value ∈ deeds →
    (∃ found, Run.lookupAt m.current distance name.lexeme name.line m = .ok found m) ∧
      ∀ new, ∃ m', Run.assignAt m.current distance name.lexeme new name.line m = .ok new m'

/-- If the reference at a site has a distance, the frames around the current one mirror the scopes
in which the resolver, walking through one of the statements of the past, binds the reference. -/
def Machine.MirrorsPast (past : List (Stmt Site)) (site : Site) (name : Token) (m : Machine) : Prop :=
  ∀ distance, m.distances.find? site = some distance →
    ∃ root ∈ past, ∃ depth walk there path, Resolver.statement depth root .start = .ok () walk ∧
      Resolver.ReachesIn site there path depth root .start [] ∧
        ∃ locals owner, m.Mirrors there path name distance locals owner

/-- A chain that fits some scopes consists of local frames for them and of the globals. -/
theorem Fits.exists_locals {T : Typing} {ids : List FrameId} {path : List Scope}
    (h : Fits T ids path) : ∃ locals, ids = locals ++ [Machine.globals] ∧
      List.Forall₂ (fun id scope => ∃ rest, T[id]? = some (scope :: rest)) locals path := by
  induction h with
  | outermost _ => exact ⟨[], rfl, .nil⟩
  | @inner id ids scope path hid rest ih =>
    obtain ⟨locals, rfl, hlocals⟩ := ih
    exact ⟨id :: locals, rfl, .cons ⟨path, hid⟩ hlocals⟩

/-- The innermost scope that declares a name is one of the scopes. -/
theorem lt_length_of_findScope {name : String} {scopes : List (List String)} {distance : Nat}
    (h : findScope name scopes = some distance) : distance < scopes.length := by
  induction scopes generalizing distance with
  | nil => cases h
  | cons scope outer ih =>
    by_cases hmem : name ∈ scope
    · rw [findScope_cons_of_mem outer hmem] at h
      cases h
      exact Nat.zero_lt_succ _
    · rw [findScope_cons_of_not_mem outer hmem] at h
      obtain ⟨inner, hinner, rfl⟩ := Option.map_eq_some_iff.mp h
      exact Nat.succ_lt_succ (ih hinner)

namespace Run
variable {m : Machine} {id owner : FrameId} {distance : Nat} {name : String}

theorem lookupAt_apply (h : m.store.ancestor? id distance = some owner) (line : Option Int) :
    lookupAt id distance name line m = readIn owner name line m := by
  have hancestor : ancestor id distance m = .ok owner m := by simp [ancestor, h]
  exact bind_of_ok hancestor _

theorem assignAt_apply (h : m.store.ancestor? id distance = some owner) (value : Value)
    (line : Option Int) :
    assignAt id distance name value line m = writeIn owner name value line m := by
  have hancestor : ancestor id distance m = .ok owner m := by simp [ancestor, h]
  exact bind_of_ok hancestor _

theorem exists_readIn (h : m.store.binds owner name = true) (line : Option Int) :
    ∃ found, readIn owner name line m = .ok found m := by
  obtain ⟨found, hfound⟩ := Option.isSome_iff_exists.mp h
  exact ⟨found, by simp [readIn, hfound]⟩

theorem exists_writeIn (h : m.store.binds owner name = true) (value : Value) (line : Option Int) :
    ∃ m', writeIn owner name value line m = .ok value m' :=
  ⟨_, by simp [writeIn, h]; rfl⟩

theorem readIn_of_not_binds (h : ¬ m.store.binds owner name = true) (line : Option Int) :
    readIn owner name line m = fail (.notDefined name) line m := by
  have hnone : m.store.read? owner name = none := by simpa [Store.binds] using h
  simp [readIn, hnone]

theorem writeIn_of_not_binds (h : ¬ m.store.binds owner name = true) (value : Value)
    (line : Option Int) :
    writeIn owner name value line m = fail (.notDeclared name) line m := by
  simp [writeIn, h]

end Run

/-- The scope at the distance of a name declares the name. -/
theorem Surroundings.Nested.exists_of_findScope {around : Surroundings} (h : around.Nested)
    {name : String} {distance : Nat} (hdistance : findScope name around.scopes = some distance) :
    ∃ scope, around.path[distance]? = some scope ∧ name ∈ scope.names := by
  obtain ⟨path, scopes, inFunction⟩ := around
  simp only [Surroundings.Nested] at h hdistance ⊢
  induction h generalizing distance with
  | nil => cases hdistance
  | @cons names scope scopes path hnames _ ih =>
    by_cases hmem : name ∈ names
    · rw [findScope_cons_of_mem _ hmem] at hdistance
      cases hdistance
      exact ⟨scope, rfl, hnames name hmem⟩
    · rw [findScope_cons_of_not_mem _ hmem] at hdistance
      obtain ⟨inner, hinner, rfl⟩ := Option.map_eq_some_iff.mp hdistance
      exact ih hinner

/-- The frames of a typed machine mirror the scopes around a bound reference. -/
theorem Machine.Typed.exists_mirrors {S : Setting} {T : Typing} {m : Machine} (h : m.Typed S T)
    {v : Visit} (hv : S.Bound v) (hcurrent : T[m.current]? = some v.around.path) {there : Walk}
    (hthere : there.scopes = v.around.scopes) {distance : Nat}
    (hdistance : m.distances.find? v.site = some distance) :
    ∃ locals owner, m.Mirrors there v.around.path v.name distance locals owner := by
  obtain ⟨hreference, hfind⟩ := hv
  rw [← h.distances, hdistance] at hfind
  obtain ⟨locals, hchain, hlocals⟩ := (h.fits_chain hcurrent).exists_locals
  have hnested := S.nested hreference
  have hlength : locals.length = v.around.scopes.length := by
    rw [hlocals.length_eq, hnested.length_eq]
  have hlt : distance < locals.length := by
    rw [hlength]
    exact lt_length_of_findScope hfind.symm
  have hancestor : m.store.ancestor? m.current distance = some locals[distance] := by
    rw [Store.ancestor?, hchain, List.getElem?_append_left hlt, List.getElem?_eq_getElem hlt]
  refine ⟨locals, locals[distance], hchain, by rw [hlength, hthere], ?_, by rw [hthere]; exact hnested,
    by rw [hthere]; exact hfind.symm, hancestor, ⟨List.getElem?_eq_getElem hlt, ?_⟩, h.history, ?_⟩
  · refine hlocals.imp fun id scope ⟨rest, hid⟩ => ?_
    obtain ⟨f, hf, htyped⟩ := h.exists_frame hid
    exact ⟨f, hf, htyped.origin, htyped.names⟩
  · intro hglobals
    obtain ⟨rest, hid⟩ := hlocals.get hlt (hlocals.length_eq ▸ hlt)
    rw [List.get_eq_getElem, hglobals, h.globals] at hid
    cases hid
  · intro deeds hdeeds value hmem
    have hbinds : m.store.binds locals[distance] v.name.lexeme = true :=
      hdeeds.binds_iff.mpr ⟨value, hmem⟩
    rw [Run.lookupAt_apply hancestor]
    refine ⟨Run.exists_readIn hbinds _, fun new => ?_⟩
    rw [Run.assignAt_apply hancestor]
    exact Run.exists_writeIn hbinds new _

/-- A guard of a condition that holds at all bound references is never called. -/
theorem Access.guarded_follows {S : Setting} {condition : Site → Token → Machine → Prop}
    (hcondition : ∀ {T : Typing} {m : Machine} {v : Visit}, m.Typed S T → S.Bound v →
      T[m.current]? = some v.around.path → condition v.site v.name m) (alarm : Access) :
    (Access.guarded condition alarm).Follows S where
  read hm hv hcurrent := if_pos (hcondition hm hv hcurrent)
  write hm hv hcurrent _ := if_pos (hcondition hm hv hcurrent)

/-- Static scoping: whenever a reference with a distance is evaluated, the frames around the current
one mirror the scopes in which the resolver has bound the reference. -/
theorem Machine.Driven.static_scoping {past : List (Stmt Site)} {next after : Site} {m : Machine}
    (h : Driven past next m) {s : Stmt Site} {bindings : List Binding}
    (hs : Taken next s bindings after) (rounds depth : Nat) :
    Access.Always (MirrorsPast (past ++ [s])) (fun access => access.interpret rounds depth s)
      { m with distances := m.distances.record bindings } := by
  intro alarm
  have hsteady := h.steady.pass hs
  obtain ⟨T, hT⟩ := hsteady.typed
  have hguarded : (Access.guarded (MirrorsPast (past ++ [s])) alarm).Follows
      (.behind (past ++ [s]) (m.distances.record bindings)) := by
    refine Access.guarded_follows (fun {T' m' v} hm hv hcurrent distance hdistance => ?_) alarm
    obtain ⟨root, hroot, hvisit⟩ := hv.1
    obtain ⟨limit, found, hresolve⟩ := hsteady.resolvable root hroot
    obtain ⟨walk, hwalk, -⟩ := Stmt.exists_walk hresolve
    obtain ⟨there, hreach, hscopes⟩ := Resolver.exists_reachesIn [] rfl hwalk hvisit
    exact ⟨root, hroot, limit, walk, there, v.around.path, hwalk, hreach,
      hm.exists_mirrors hv hcurrent hscopes hdistance⟩
  exact (hguarded.keeps_interpret hT.globals (h.steady.placed hs) rounds depth _ hT
    hsteady.current).1

/-- The text `{ var a; print a; }` on a new machine. -/
theorem static_scoping_of_block :
    Access.Always
      (Machine.MirrorsPast [.block 0 [.variable ⟨.identifier, "a", none, 1⟩ none,
        .print (.variable 1 ⟨.identifier, "a", none, 1⟩)]])
      (fun access => access.interpret 1 9 (.block 0 [.variable ⟨.identifier, "a", none, 1⟩ none,
        .print (.variable 1 ⟨.identifier, "a", none, 1⟩)]))
      { Machine.initial fun _ => 0 with
        distances := Distances.empty.record
          [⟨1, .read, ⟨.identifier, "a", none, 1⟩, 0, false⟩] } := by
  have hs : Taken 0 (.block 0 [.variable ⟨.identifier, "a", none, 1⟩ none,
      .print (.variable 1 ⟨.identifier, "a", none, 1⟩)])
      [⟨1, .read, ⟨.identifier, "a", none, 1⟩, 0, false⟩] 2 :=
    ⟨⟨.ofText "{ var a; print a; }", 20, _, rfl, rfl⟩, 9, rfl⟩
  exact (Machine.Driven.initial fun _ => 0).static_scoping hs 1 9

end Lox
