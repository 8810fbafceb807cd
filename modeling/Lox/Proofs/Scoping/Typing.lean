import Lox.Machine.Basic
import Lox.Proofs.Scoping.Visits
import Lox.Proofs.Store

/-!
# Typed machines

Every frame of a machine belongs to a place of the text: it has been made for the innermost scope
around that place, and the frames around it have been made for the scopes around that scope. A
typing says which scopes these are for every frame. A machine is typed when its frames agree with
the typing: their chains are as long as the scopes are deep, each frame of a chain stems from its
scope and binds only names of it, and the functions it holds find their own scopes again.
-/
namespace Lox

namespace Surroundings

/-- Whether the innermost scope declares a name somewhere. Outside of all scopes nothing is known
of the names. -/
def Declares (around : Surroundings) (name : String) : Prop :=
  ∀ scope ∈ around.path.head?, name ∈ scope.names

/-- There are names for each scope, and these are names that the scope declares. -/
def Nested (around : Surroundings) : Prop :=
  List.Forall₂ (fun names scope => ∀ name ∈ names, name ∈ scope.names) around.scopes around.path

namespace Nested
variable {around : Surroundings}

theorem outermost : outermost.Nested := .nil

theorem declare (h : around.Nested) {names : List String}
    (hnames : ∀ name ∈ names, around.Declares name) : (around.declare names).Nested := by
  obtain ⟨path, scopes, inFunction⟩ := around
  cases h with
  | nil => exact .nil
  | @cons scope innermost scopes path hscope hrest =>
    refine .cons (fun name hname => ?_) hrest
    rcases List.mem_append.mp hname with hn | hn
    · exact hnames name (List.mem_reverse.mp hn) innermost rfl
    · exact hscope name hn

theorem inBlock (h : around.Nested) (site : Site) (body : List (Stmt Site)) :
    (around.inBlock site body).Nested :=
  .cons (by simp) h

theorem inBody (h : around.Nested) (site : Site) (params : List Token) (body : List (Stmt Site)) :
    (around.inBody site params body).Nested :=
  .cons (fun name hname => List.mem_append_left _ (by simpa using hname)) h

theorem length_eq (h : around.Nested) : around.scopes.length = around.path.length :=
  List.Forall₂.length_eq h

end Nested

end Surroundings

mutual

/-- The references of a statement have names for each of their scopes. -/
theorem Stmt.nested_of_mem_visits {around : Surroundings} {v : Visit} (h : around.Nested) :
    ∀ s : Stmt Site, (∀ name ∈ s.declared, around.Declares name) → v ∈ s.visits around →
      v.around.Nested
  | .expression value, _, hv => by rw [value.around_of_mem_visits hv]; exact h
  | .print value, _, hv => by rw [value.around_of_mem_visits hv]; exact h
  | .assert _ condition, _, hv => by rw [condition.around_of_mem_visits hv]; exact h
  | .variable _ none, _, hv => by simp [Stmt.visits] at hv
  | .variable name (some initializer), hd, hv => by
    rw [initializer.around_of_mem_visits hv]
    exact h.declare hd
  | .block site body, _, hv =>
    Stmt.nested_of_mem_allVisits (h.inBlock site body) body
      (by simp [Surroundings.Declares, Surroundings.inBlock, Scope.names]) hv
  | .conditional condition yes none, hd, hv => by
    rcases List.mem_append.mp hv with hv | hv
    · rw [condition.around_of_mem_visits hv]; exact h
    · exact yes.nested_of_mem_visits h hd hv
  | .conditional condition yes (some no), hd, hv => by
    have hyes : ∀ name ∈ yes.declared, around.Declares name :=
      fun name hn => hd name (List.mem_append_left _ hn)
    have hno : ∀ name ∈ no.declared, around.Declares name :=
      fun name hn => hd name (List.mem_append_right _ hn)
    rcases List.mem_append.mp hv with hv | hv
    · rcases List.mem_append.mp hv with hv | hv
      · rw [condition.around_of_mem_visits hv]; exact h
      · exact yes.nested_of_mem_visits h hyes hv
    · exact no.nested_of_mem_visits (h.declare hyes) hno hv
  | .loop condition body, hd, hv => by
    rcases List.mem_append.mp hv with hv | hv
    · rw [condition.around_of_mem_visits hv]; exact h
    · exact body.nested_of_mem_visits h hd hv
  | .function site name params body, hd, hv =>
    Stmt.nested_of_mem_allVisits ((h.declare hd).inBody site params body) body
      (by simp +contextual [Surroundings.Declares, Surroundings.inBody, Scope.names]) hv
  | .return _ none, _, hv => by simp [Stmt.visits] at hv
  | .return _ (some value), _, hv => by rw [value.around_of_mem_visits hv]; exact h
  | .endMarker, _, hv => by simp [Stmt.visits] at hv
  | .foreign _, _, hv => by simp [Stmt.visits] at hv

theorem Stmt.nested_of_mem_allVisits {around : Surroundings} {v : Visit} (h : around.Nested) :
    ∀ ss : List (Stmt Site), (∀ name ∈ Stmt.allDeclared ss, around.Declares name) →
      v ∈ Stmt.allVisits around ss → v.around.Nested
  | [], _, hv => by simp [Stmt.allVisits] at hv
  | s :: ss, hd, hv => by
    have hs : ∀ name ∈ s.declared, around.Declares name :=
      fun name hn => hd name (List.mem_append_left _ hn)
    have hss : ∀ name ∈ Stmt.allDeclared ss, around.Declares name :=
      fun name hn => hd name (List.mem_append_right _ hn)
    rcases List.mem_append.mp hv with hv | hv
    · exact s.nested_of_mem_visits h hs hv
    · exact Stmt.nested_of_mem_allVisits (h.declare hs) ss hss hv

end

/-- What holds while a statement is executed: which names globals may have, which references there
are, and the table of distances. -/
structure Setting where
  globals : String → Prop
  references : Visit → Prop
  nested : ∀ {v}, references v → v.around.Nested
  distances : Distances

namespace Setting

/-- The table knows the scope that a reference belongs to. -/
def Bound (S : Setting) (v : Visit) : Prop :=
  S.references v ∧ S.distances.find? v.site = findScope v.name.lexeme v.around.scopes

/-- The names that a frame inside some scopes may bind. -/
def Declarable (S : Setting) : List Scope → String → Prop
  | [], name => S.globals name
  | scope :: _, name => name ∈ scope.names

end Setting

/-- The scopes around every frame, innermost first, the frame's own among them. -/
abbrev Typing := List (List Scope)

/-- A function's frame lies where the function was declared: there the references of its body are
bound. -/
def Value.Typed (S : Setting) (T : Typing) : Value → Prop
  | .closure f => ∃ around : Surroundings, T[f.frame]? = some around.path ∧
      ∀ v ∈ Stmt.allVisits (around.inBody f.site f.params f.body) f.body, S.Bound v
  | .atom _ | .native _ => True

/-- A chain of frames lies inside some scopes: the outermost frame lies outside of all. -/
inductive Fits (T : Typing) : List FrameId → List Scope → Prop where
  | outermost (h : T[Machine.globals]? = some []) : Fits T [Machine.globals] []
  | inner {id : FrameId} {ids : List FrameId} {scope : Scope} {path : List Scope}
      (h : T[id]? = some (scope :: path)) (rest : Fits T ids path) :
      Fits T (id :: ids) (scope :: path)

/-- A frame inside some scopes. -/
structure Frame.Typed (S : Setting) (T : Typing) (id : FrameId) (path : List Scope) (f : Frame) :
    Prop where
  chain : Fits T (id :: f.outer) path
  origin : f.origin = path.head?.map Scope.site
  names : ∀ name ∈ f.names, S.Declarable path name
  values : ∀ b ∈ f.bindings, b.2.Typed S T

/-- A machine whose frames lie where a typing says. -/
structure Machine.Typed (S : Setting) (T : Typing) (m : Machine) : Prop where
  globals : T[Machine.globals]? = some []
  length : T.length = m.store.next
  frames : ∀ {id : FrameId} {path : List Scope} {f : Frame}, T[id]? = some path →
    m.store.frames[id]? = some f → f.Typed S T id path
  distances : m.distances = S.distances
  history : ∃ deeds, m.store.History deeds

theorem Typing.getElem?_mono {T T' : Typing} (h : T <+: T') {id : FrameId} {path : List Scope}
    (hid : T[id]? = some path) : T'[id]? = some path := by
  obtain ⟨more, rfl⟩ := h
  rw [List.getElem?_append_left (List.getElem?_eq_some_iff.mp hid).1, hid]

theorem Typing.getElem?_concat {T : Typing} {path other : List Scope} {id : FrameId}
    (h : (T ++ [path])[id]? = some other) : T[id]? = some other ∨ (id = T.length ∧ other = path) := by
  by_cases hlt : id < T.length
  · rw [List.getElem?_append_left hlt] at h
    exact .inl h
  · have hid : id = T.length := by
      have hle : id < (T ++ [path]).length := (List.getElem?_eq_some_iff.mp h).1
      rw [List.length_append, List.length_singleton] at hle
      exact Nat.le_antisymm (Nat.lt_succ_iff.mp hle) (Nat.not_lt.mp hlt)
    subst hid
    rw [List.getElem?_concat_length] at h
    exact .inr ⟨rfl, (Option.some.inj h).symm⟩

section Mono
variable {S : Setting} {T T' : Typing}

theorem Value.Typed.mono (h : T <+: T') : ∀ {value : Value}, value.Typed S T → value.Typed S T'
  | .closure _, ⟨around, hframe, hbound⟩ => ⟨around, Typing.getElem?_mono h hframe, hbound⟩
  | .atom _, _ => trivial
  | .native _, _ => trivial

theorem Fits.mono (h : T <+: T') {ids : List FrameId} {path : List Scope} (hfits : Fits T ids path) :
    Fits T' ids path := by
  induction hfits with
  | outermost hid => exact .outermost (Typing.getElem?_mono h hid)
  | inner hid _ ih => exact .inner (Typing.getElem?_mono h hid) ih

theorem Frame.Typed.mono (h : T <+: T') {id : FrameId} {path : List Scope} {f : Frame}
    (hf : f.Typed S T id path) : f.Typed S T' id path :=
  ⟨hf.chain.mono h, hf.origin, hf.names, fun b hb => (hf.values b hb).mono h⟩

end Mono

namespace Fits
variable {T : Typing} {ids : List FrameId} {path : List Scope}

/-- Each step out of a chain is a step out of its scopes. -/
theorem getElem? (h : Fits T ids path) {i : Nat} (hi : i ≤ path.length) :
    ∃ id, ids[i]? = some id ∧ T[id]? = some (path.drop i) := by
  induction h generalizing i with
  | outermost hid =>
    obtain rfl : i = 0 := Nat.le_zero.mp hi
    exact ⟨_, rfl, hid⟩
  | @inner id ids scope path hid rest ih =>
    cases i with
    | zero => exact ⟨id, rfl, hid⟩
    | succ i => exact ih (Nat.le_of_succ_le_succ hi)

end Fits

namespace Machine.Typed
variable {S : Setting} {T : Typing} {m : Machine} {id : FrameId} {path : List Scope}

theorem exists_frame (h : m.Typed S T) (hid : T[id]? = some path) :
    ∃ f, m.store.frames[id]? = some f ∧ f.Typed S T id path := by
  have hlt : id < m.store.next := by
    rw [← h.length]
    exact (List.getElem?_eq_some_iff.mp hid).1
  obtain ⟨f, hf⟩ := Store.exists_frame hlt
  exact ⟨f, hf, h.frames hid hf⟩

theorem exists_path (h : m.Typed S T) {f : Frame} (hf : m.store.frames[id]? = some f) :
    ∃ path, T[id]? = some path ∧ f.Typed S T id path := by
  have hlt : id < T.length := by
    rw [h.length]
    exact Store.lt_next hf
  exact ⟨_, List.getElem?_eq_getElem hlt, h.frames (List.getElem?_eq_getElem hlt) hf⟩

theorem fits_chain (h : m.Typed S T) (hid : T[id]? = some path) :
    Fits T (m.store.chain id) path := by
  obtain ⟨f, hf, htyped⟩ := h.exists_frame hid
  rw [Store.chain, hf]
  exact htyped.chain

/-- The values of a typed machine are typed. -/
theorem value (h : m.Typed S T) {name : String} {value : Value}
    (hread : m.store.read? id name = some value) : value.Typed S T := by
  obtain ⟨f, hf, hfind⟩ := Option.bind_eq_some_iff.mp hread
  obtain ⟨path, -, htyped⟩ := h.exists_path hf
  exact htyped.values _ (Frame.mem_of_find? hfind)

/-- Making a frame inside another one, for a scope in that place. -/
theorem push (h : m.Typed S T) (hid : T[id]? = some path) (scope : Scope) :
    Machine.Typed S (T ++ [scope :: path])
      { m with store := m.store.push (m.store.chain id) (some scope.site) } where
  globals := Typing.getElem?_mono (List.prefix_append T _) h.globals
  length := by simp [h.length]
  frames := by
    intro other otherPath f hother hf
    rcases Typing.getElem?_concat hother with hold | ⟨rfl, rfl⟩
    · have hlt : other < m.store.next := by
        rw [← h.length]
        exact (List.getElem?_eq_some_iff.mp hold).1
      rw [Store.frame_push_of_lt hlt] at hf
      exact (h.frames hold hf).mono (List.prefix_append T _)
    · rw [h.length, Store.frame_push_next] at hf
      cases hf
      have hchain := (h.fits_chain hid).mono (List.prefix_append T [scope :: path])
      exact ⟨.inner hother hchain, rfl, by simp [Frame.names], by simp⟩
  distances := h.distances
  history := by
    obtain ⟨deeds, hdeeds⟩ := h.history
    exact ⟨_, hdeeds.enter _ _⟩

/-- Binding a name that the frame's scope declares. -/
theorem define (h : m.Typed S T) (hid : T[id]? = some path) {name : String} {value : Value}
    (hname : S.Declarable path name) (hvalue : value.Typed S T) :
    Machine.Typed S T { m with store := m.store.define id name value } where
  globals := h.globals
  length := by simp [h.length]
  frames := by
    intro other otherPath f hother hf
    rw [Store.frame_define] at hf
    split at hf
    · rename_i heq
      subst heq
      obtain ⟨g, hg, rfl⟩ := Option.map_eq_some_iff.mp hf
      obtain rfl := Option.some.inj (hid.symm.trans hother)
      have htyped := h.frames hid hg
      refine ⟨htyped.chain, htyped.origin, fun key hkey => ?_, fun b hb => ?_⟩
      · rw [Frame.names_define] at hkey
        rcases List.mem_append.mp hkey with hold | hnew
        · exact htyped.names key hold
        · rw [List.mem_singleton.mp hnew]
          exact hname
      · rcases List.mem_append.mp hb with hold | hnew
        · exact htyped.values b hold
        · rw [List.mem_singleton.mp hnew]
          exact hvalue
    · exact h.frames hother hf
  distances := h.distances
  history := by
    obtain ⟨deeds, hdeeds⟩ := h.history
    obtain ⟨f, hf, -⟩ := h.exists_frame hid
    exact ⟨_, hdeeds.declare (Store.lt_next hf) name value⟩

/-- Binding another value to a name. -/
theorem write (h : m.Typed S T) (id : FrameId) (name : String) {value : Value}
    (hvalue : value.Typed S T) :
    Machine.Typed S T { m with store := m.store.write id name value } where
  globals := h.globals
  length := by simp [h.length]
  frames := by
    intro other otherPath f hother hf
    rw [Store.frame_write] at hf
    split at hf
    · obtain ⟨g, hg, rfl⟩ := Option.map_eq_some_iff.mp hf
      have htyped := h.frames hother hg
      refine ⟨htyped.chain, htyped.origin, fun key hkey => ?_, fun b hb => ?_⟩
      · rw [Frame.names_update] at hkey
        exact htyped.names key hkey
      · obtain ⟨c, hc, rfl⟩ := List.mem_map.mp hb
        split
        · exact hvalue
        · exact htyped.values c hc
    · exact h.frames hother hf
  distances := h.distances
  history := by
    obtain ⟨deeds, hdeeds⟩ := h.history
    exact ⟨_, hdeeds.assign id name value⟩

/-- Only store and table matter. -/
theorem congr (h : m.Typed S T) {m' : Machine} (hstore : m'.store = m.store)
    (hdistances : m'.distances = m.distances) : m'.Typed S T := by
  obtain ⟨store, current, distances, done, output, clock, readings⟩ := m'
  subst hstore hdistances
  exact ⟨h.globals, h.length, h.frames, h.distances, h.history⟩

end Machine.Typed

end Lox
