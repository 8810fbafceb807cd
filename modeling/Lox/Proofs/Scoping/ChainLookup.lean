import Lox.Proofs.Scoping.Driving
import Lox.Proofs.Scoping.Mirroring
import Lox.Proofs.Scoping.Occurrences

/-!
# Looking up names along the chain

A plainer machine would not bind references at all: it would search the frames from the current one
to the globals for the name. Where nothing is shadowed it finds the same frame, or it fails like the
other, so the two cannot be told apart.
-/
namespace Lox
open Outcome

/-- References find their variables by searching the chain of the current frame. -/
def Access.byChain : Access where
  read _ name := do Run.lookup (← get).current name.lexeme name.line
  write _ name value := do Run.assign (← get).current name.lexeme value name.line

/-- The scope of a reference can be told from its name: the only scope around it that declares the
name is the one it belongs to, and then no global has that name. -/
structure Visit.Clear (globals : String → Prop) (v : Visit) : Prop where
  only : ∀ {i : Nat} {scope : Scope}, v.around.path[i]? = some scope → v.name.lexeme ∈ scope.names →
    findScope v.name.lexeme v.around.scopes = some i
  notGlobal : ∀ scope ∈ v.around.path, v.name.lexeme ∈ scope.names → ¬ globals v.name.lexeme

/-- The innermost scope that has declared a name. -/
theorem findScope_eq_some {name : String} {scopes : List (List String)} {i : Nat}
    {names : List String} (hi : scopes[i]? = some names) (hmem : name ∈ names)
    (hinner : ∀ j < i, ∀ inner, scopes[j]? = some inner → name ∉ inner) :
    findScope name scopes = some i := by
  induction scopes generalizing i with
  | nil => cases hi
  | cons scope outer ih =>
    cases i with
    | zero =>
      cases hi
      exact findScope_cons_of_mem outer hmem
    | succ i =>
      rw [findScope_cons_of_not_mem outer (hinner 0 (Nat.zero_lt_succ i) scope rfl),
        ih hi fun j hj inner => hinner (j + 1) (Nat.succ_lt_succ hj) inner]
      rfl

/-- In each scope around it, a reference stands behind what the scope has declared. -/
theorem Surroundings.Hold.all {around : Surroundings} {name : String}
    (h : around.Hold [.reference name]) :
    List.Forall₂ (Scope.Holds [.reference name]) around.scopes around.path := by
  obtain ⟨path, scopes, inFunction⟩ := around
  cases scopes <;> cases path
  · exact .nil
  · exact h.elim
  · exact h.elim
  · exact .cons h.1 h.2

/-- A scope that declares a name somewhere has declared it before any reference to it. -/
theorem Scope.Holds.declared {scope : Scope} {names : List String} {name : String}
    (h : scope.Holds [.reference name] names) (horderly : Orderly scope.occurrences)
    (hname : name ∈ scope.names) : name ∈ names := by
  obtain ⟨before, after, heq, hnames⟩ := h
  rw [hnames]
  have hmem := Scope.declaration_mem.mpr hname
  rw [heq, List.append_assoc] at hmem
  rcases List.mem_append.mp hmem with hbefore | hrest
  · exact hbefore
  · refine horderly before name after (by simp [heq]) ?_
    simpa using hrest

namespace Unshadowed
variable {σ : Type} {program : List (Stmt σ)}

/-- Different scopes around a place declare different names. -/
theorem eq_of_names (h : Unshadowed program) {around : Surroundings}
    (hsublist : around.occurrences.Sublist (Stmt.allInside program)) {i j : Nat}
    {scope other : Scope} (hi : around.path[i]? = some scope) (hj : around.path[j]? = some other)
    {name : String} (hscope : name ∈ scope.names) (hother : name ∈ other.names) : i = j := by
  have hpairwise : (around.path.map Scope.occurrences).Pairwise fun outer inner =>
      ∀ name, .declaration name ∈ inner → .declaration name ∉ outer :=
    List.pairwise_reverse.mp ((List.pairwise_cons.mp h.once).2.sublist hsublist)
  have hfalse : ∀ {i j : Nat} {scope other : Scope}, i < j → around.path[i]? = some scope →
      around.path[j]? = some other → name ∈ scope.names → name ∈ other.names → False := by
    intro i j scope other hlt hi hj hscope hother
    have hi' : (around.path.map Scope.occurrences)[i]? = some scope.occurrences := by simp [hi]
    have hj' : (around.path.map Scope.occurrences)[j]? = some other.occurrences := by simp [hj]
    obtain ⟨hilt, hieq⟩ := List.getElem?_eq_some_iff.mp hi'
    obtain ⟨hjlt, hjeq⟩ := List.getElem?_eq_some_iff.mp hj'
    have hdisjoint := List.pairwise_iff_getElem.mp hpairwise i j hilt hjlt hlt name
    rw [hieq, hjeq] at hdisjoint
    exact hdisjoint (Scope.declaration_mem.mpr hother) (Scope.declaration_mem.mpr hscope)
  rcases Nat.lt_trichotomy i j with hlt | heq | hlt
  · exact (hfalse hlt hi hj hscope hother).elim
  · exact heq
  · exact (hfalse hlt hj hi hother hscope).elim

/-- In a program that shadows nothing, scopes can be told from names. -/
theorem clear (h : Unshadowed program) {v : Visit} (hv : v.Stands (Stmt.allInside program))
    {globals : String → Prop}
    (hglobals : ∀ name, globals name → .declaration name ∈ globalOccurrences program) :
    v.Clear globals where
  only := by
    intro i scope hi hname
    have hall := hv.hold.all
    have hinside : ∀ {j : Nat} {other : Scope}, v.around.path[j]? = some other →
        other.occurrences ∈ Stmt.allInside program := by
      intro j other hj
      refine hv.sublist.subset (List.mem_reverse.mpr (List.mem_map_of_mem ?_))
      exact List.mem_of_getElem? hj
    -- The reference stands behind the declaration, and no other scope around it has the name.
    have hlt : i < v.around.path.length := (List.getElem?_eq_some_iff.mp hi).1
    have hlt' : i < v.around.scopes.length := hall.length_eq ▸ hlt
    have hscopes : v.around.scopes[i]? = some v.around.scopes[i] := List.getElem?_eq_getElem hlt'
    have hscope : v.around.path[i] = scope := (List.getElem?_eq_some_iff.mp hi).2
    have hholds := hall.get hlt' hlt
    rw [List.get_eq_getElem, List.get_eq_getElem, hscope] at hholds
    refine findScope_eq_some hscopes (hholds.declared (h.orderly _ (hinside hi)) hname) ?_
    intro j hj inner hinner hmem
    have hjlt : j < v.around.scopes.length := (List.getElem?_eq_some_iff.mp hinner).1
    have hjlt' : j < v.around.path.length := hall.length_eq ▸ hjlt
    obtain ⟨before, after, heq, hnames⟩ := hall.get hjlt hjlt'
    have hother : v.name.lexeme ∈ (v.around.path[j]).names := by
      rw [← Scope.declaration_mem]
      have hbefore := (hnames v.name.lexeme).mp (by
        rw [List.get_eq_getElem, (List.getElem?_eq_some_iff.mp hinner).2]
        exact hmem)
      rw [List.get_eq_getElem] at heq
      rw [heq]
      exact List.mem_append_left _ (List.mem_append_left _ hbefore)
    have hij := h.eq_of_names hv.sublist (List.getElem?_eq_getElem hjlt') hi hother hname
    exact absurd hij (Nat.ne_of_lt hj)
  notGlobal := by
    intro scope hscope hname hglobal
    have hmem : scope.occurrences ∈ Stmt.allInside program :=
      hv.sublist.subset (List.mem_reverse.mpr (List.mem_map_of_mem hscope))
    exact (List.pairwise_cons.mp h.once).1 _ hmem _ (hglobals _ hglobal)
      (Scope.declaration_mem.mpr hname)

end Unshadowed

namespace Machine.Typed
variable {S : Setting} {T : Typing} {m : Machine}

/-- A frame of a chain that binds a name is one of a scope that declares the name, or the globals. -/
theorem names_of_binds (h : m.Typed S T) {path : List Scope} {locals : List FrameId}
    (hlocals : List.Forall₂ (fun id scope => ∃ rest, T[id]? = some (scope :: rest)) locals path)
    {id : FrameId} (hid : id ∈ locals ++ [Machine.globals]) {name : String}
    (hbinds : m.store.binds id name = true) :
    (∃ (i : Nat) (scope : Scope), locals[i]? = some id ∧ path[i]? = some scope ∧
      name ∈ scope.names) ∨ (id = Machine.globals ∧ S.globals name) := by
  obtain ⟨f, hf, hname⟩ := Store.binds_iff.mp hbinds
  rcases List.mem_append.mp hid with hlocal | hglobal
  · obtain ⟨i, hi, rfl⟩ := List.getElem_of_mem hlocal
    have hi' : i < path.length := hlocals.length_eq ▸ hi
    obtain ⟨rest, htyping⟩ := hlocals.get hi hi'
    have hdeclarable := (h.frames htyping hf).names name (Frame.mem_names_iff.mpr hname)
    exact .inl ⟨i, path[i], List.getElem?_eq_getElem hi, List.getElem?_eq_getElem hi', hdeclarable⟩
  · obtain rfl := List.mem_singleton.mp hglobal
    exact .inr ⟨rfl, (h.frames h.globals hf).names name (Frame.mem_names_iff.mpr hname)⟩

theorem chain_globals (h : m.Typed S T) : m.store.chain Machine.globals = [Machine.globals] := by
  obtain ⟨locals, hchain, hlocals⟩ := (h.fits_chain h.globals).exists_locals
  cases hlocals
  exact hchain

/-- Where scopes can be told from names, a search along the chain finds the frame at the distance of
a reference, if that frame binds the name, and nothing if it does not. -/
theorem owner?_of_distance (h : m.Typed S T) {v : Visit} (hv : S.references v)
    (hclear : v.Clear S.globals) (hcurrent : T[m.current]? = some v.around.path) {distance : Nat}
    (hdistance : findScope v.name.lexeme v.around.scopes = some distance) :
    ∃ owner, m.store.ancestor? m.current distance = some owner ∧
      m.store.owner? m.current v.name.lexeme =
        if m.store.binds owner v.name.lexeme then some owner else none := by
  obtain ⟨locals, hchain, hlocals⟩ := (h.fits_chain hcurrent).exists_locals
  have hlength : locals.length = v.around.scopes.length := by
    rw [hlocals.length_eq, (S.nested hv).length_eq]
  have hlt : distance < locals.length := hlength ▸ lt_length_of_findScope hdistance
  have hdeclared : ∃ scope, v.around.path[distance]? = some scope ∧ v.name.lexeme ∈ scope.names :=
    (S.nested hv).exists_of_findScope hdistance
  have hunique : ∀ id ∈ locals ++ [Machine.globals], m.store.binds id v.name.lexeme = true →
      id = locals[distance] := by
    intro id hid hbinds
    rcases h.names_of_binds hlocals hid hbinds with ⟨i, scope, hi, hscope, hname⟩ | ⟨-, hglobal⟩
    · obtain rfl := Option.some.inj ((hclear.only hscope hname).symm.trans hdistance)
      exact ((List.getElem?_eq_some_iff.mp hi).2).symm
    · obtain ⟨scope, hscope, hname⟩ := hdeclared
      exact absurd hglobal (hclear.notGlobal scope (List.mem_of_getElem? hscope) hname)
  refine ⟨locals[distance], ?_, ?_⟩
  · rw [Store.ancestor?, hchain, List.getElem?_append_left hlt, List.getElem?_eq_getElem hlt]
  · rw [Store.owner?, hchain]
    by_cases hbinds : m.store.binds locals[distance] v.name.lexeme = true
    · rw [if_pos hbinds]
      cases hfind : (locals ++ [Machine.globals]).find? (m.store.binds · v.name.lexeme) with
      | none =>
        have hmem : locals[distance] ∈ locals ++ [Machine.globals] :=
          List.mem_append_left _ (List.getElem_mem hlt)
        exact absurd hbinds (List.find?_eq_none.mp hfind _ hmem)
      | some id =>
        have hid : m.store.binds id v.name.lexeme = true := by simpa using List.find?_some hfind
        rw [hunique id (List.mem_of_find?_eq_some hfind) hid]
    · rw [if_neg hbinds, List.find?_eq_none]
      intro id hid hbinds'
      rw [hunique id hid hbinds'] at hbinds'
      exact hbinds hbinds'

/-- A search along the chain for a name that no local scope declares finds a global or nothing. -/
theorem owner?_of_none (h : m.Typed S T) {v : Visit} (hclear : v.Clear S.globals)
    (hcurrent : T[m.current]? = some v.around.path)
    (hnone : findScope v.name.lexeme v.around.scopes = none) :
    m.store.owner? m.current v.name.lexeme = m.store.owner? Machine.globals v.name.lexeme := by
  obtain ⟨locals, hchain, hlocals⟩ := (h.fits_chain hcurrent).exists_locals
  rw [Store.owner?, hchain, Store.owner?, h.chain_globals, List.find?_append]
  have hlocal : locals.find? (m.store.binds · v.name.lexeme) = none := by
    rw [List.find?_eq_none]
    intro id hid hbinds
    obtain ⟨i, hi, rfl⟩ := List.getElem_of_mem hid
    have hi' : i < v.around.path.length := hlocals.length_eq ▸ hi
    obtain ⟨rest, htyping⟩ := hlocals.get hi hi'
    obtain ⟨f, hf, hname⟩ := Store.binds_iff.mp hbinds
    have hdeclared := (h.frames htyping hf).names _ (Frame.mem_names_iff.mpr hname)
    have hfound := hclear.only (List.getElem?_eq_getElem hi') hdeclared
    rw [hnone] at hfound
    cases hfound
  rw [hlocal, Option.none_or]

end Machine.Typed

/-- Where scopes can be told from names, searching the chain is the same as going by distance. -/
theorem Access.byChain_follows {S : Setting} (hclear : ∀ v, S.references v → v.Clear S.globals) :
    Access.byChain.Follows S where
  read := by
    intro T m v hm hv hcurrent
    have hfind : m.distances.find? v.site = findScope v.name.lexeme v.around.scopes :=
      hm.distances ▸ hv.2
    show Run.lookup m.current _ _ m = _
    simp only [Run.read, get_bind_apply, hfind, Run.lookup]
    cases hscope : findScope v.name.lexeme v.around.scopes with
    | none => simp only [hm.owner?_of_none (hclear v hv.1) hcurrent hscope, get_bind_apply]
    | some distance =>
      obtain ⟨owner, hancestor, howner⟩ :=
        hm.owner?_of_distance hv.1 (hclear v hv.1) hcurrent hscope
      rw [howner]
      simp only [Run.lookupAt_apply hancestor]
      by_cases hbinds : m.store.binds owner v.name.lexeme = true
      · rw [if_pos hbinds]
      · rw [if_neg hbinds, Run.readIn_of_not_binds hbinds]
  write := by
    intro T m v value hm hv hcurrent hvalue
    have hfind : m.distances.find? v.site = findScope v.name.lexeme v.around.scopes :=
      hm.distances ▸ hv.2
    show Run.assign m.current _ _ _ m = _
    simp only [Run.write, get_bind_apply, hfind, Run.assign]
    cases hscope : findScope v.name.lexeme v.around.scopes with
    | none => simp only [hm.owner?_of_none (hclear v hv.1) hcurrent hscope, get_bind_apply]
    | some distance =>
      obtain ⟨owner, hancestor, howner⟩ :=
        hm.owner?_of_distance hv.1 (hclear v hv.1) hcurrent hscope
      simp only [howner, get_bind_apply, Run.assignAt_apply hancestor]
      by_cases hbinds : m.store.binds owner v.name.lexeme = true
      · simp only [if_pos hbinds]
      · simp only [if_neg hbinds, Run.writeIn_of_not_binds hbinds]

end Lox
