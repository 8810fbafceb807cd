import Lox.Proofs.Respelling.Basic
import Lox.Proofs.Respelling.Forms
import Lox.Proofs.Scoping.Keeping

/-!
# Execution carries a translation along

Two programs that differ in their spelling only are executed on machines that differ likewise, and
perhaps in distances that no reference of the program uses. Step by step, the second run is the
first one translated: it gives the translated value, leaves the translated machine, and stops with
the same error in the other spelling. This needs that references are spelled like the declarations
they belong to, and that no two names are made one.
-/
namespace Lox
open Outcome

/-- Another spelling, and other parts of the machine that a run does not look at. -/
structure Translation extends Respelling Site where
  distances : Distances → Distances
  done : Bool → Bool

/-- The machine that stands in the place of another one. -/
def Translation.machine (Φ : Translation) (m : Machine) : Machine :=
  { m with
    store := m.store.respell Φ.toRespelling
    distances := Φ.distances m.distances
    done := Φ.done m.done }

/-- The other spelling of the name in an error. -/
def RuntimeError.Cause.respell (spell : String → String) : RuntimeError.Cause → RuntimeError.Cause
  | alreadyDeclared name => alreadyDeclared (spell name)
  | notDefined name => notDefined (spell name)
  | notDeclared name => notDeclared (spell name)
  | cause => cause

/-- Stops that correspond: errors on the other line, with the name as some scope spells it; and
faults only if there may be any. -/
inductive Stop.Respelled (ρ : Respelling Site) (faults : Prop) : Stop → Stop → Prop where
  | error (cause : RuntimeError.Cause) (line : Option Int) (scope : Option Site) :
      Respelled ρ faults (.error ⟨cause, line⟩)
        (.error ⟨cause.respell (ρ.declared scope), line.map ρ.line⟩)
  | fault (h : faults) (f : Fault) : Respelled ρ faults (.fault f) (.fault f)
  | unfinished : Respelled ρ faults .unfinished .unfinished

/-- The site of the scope that a reference belongs to; none outside of all local scopes. -/
def Visit.home (v : Visit) : Option Site :=
  (findScope v.name.lexeme v.around.scopes).bind fun distance =>
    v.around.path[distance]?.map Scope.site

/-- The site of the innermost scope. -/
def Surroundings.site (around : Surroundings) : Option Site :=
  around.path.head?.map Scope.site

/-- References are spelled like the declarations they belong to, no two names are made one, and the
references of the setting keep their distances. -/
structure Translation.Faithful (Φ : Translation) (S : Setting) (F : Forms Site) : Prop where
  references : ∀ {v : Visit}, S.references v →
    Φ.reference v.site v.name.lexeme = Φ.declared v.home v.name.lexeme
  distances : ∀ {v : Visit}, S.Bound v →
    (Φ.distances S.distances).find? v.site = S.distances.find? v.site
  injective : ∀ {scope other : Option Site} {a b : String}, F.name a → F.name b →
    Φ.declared scope a = Φ.declared other b → a = b
  function : ∀ {scope : Option Site} {name : String}, F.function scope name →
    Φ.declared scope name = name

/-- Typed machines with the current frame `frame`, whose functions consist of certain forms. -/
structure Machine.Ready (S : Setting) (F : Forms Site) (T : Typing) (frame : FrameId)
    (m : Machine) : Prop where
  typed : m.Typed S T
  within : m.store.Within F
  current : m.current = frame

/-- A run has ended, and another one has ended in the translation: with the other value, which `f`
gives, or at a corresponding stop. -/
def Translation.Carried {α β : Type} (Φ : Translation) (S : Setting) (F : Forms Site) (T : Typing)
    (frame : FrameId) (post : Typing → α → Prop) (f : α → β) :
    EStateM.Result Stop Machine α → EStateM.Result Stop Machine β → Prop
  | .ok a m, other =>
    (∃ T', T <+: T' ∧ m.Ready S F T' frame ∧ post T' a) ∧ other = .ok (f a) (Φ.machine m)
  | .error stop m, other =>
    (∃ T', T <+: T' ∧ m.Ready S F T' frame) ∧
      ∃ stop', stop.Respelled Φ.toRespelling F.faults stop' ∧ other = .error stop' (Φ.machine m)

/-- Whenever the first run is begun at a ready machine, the second one carries the translation
along. -/
def Translation.Carries {α β : Type} (Φ : Translation) (S : Setting) (F : Forms Site) (T : Typing)
    (frame : FrameId) (post : Typing → α → Prop) (f : α → β) (x : Run α) (y : Run β) : Prop :=
  ∀ m : Machine, m.Ready S F T frame → Φ.Carried S F T frame post f (x m) (y (Φ.machine m))

namespace Translation.Carries
variable {Φ : Translation} {S : Setting} {F : Forms Site} {T : Typing} {frame : FrameId}
  {α β γ δ : Type} {post : Typing → α → Prop} {post' : Typing → γ → Prop} {f : α → β} {f' : γ → δ}
  {x : Run α} {y : Run β}

theorem carried_ok {m : Machine} (hm : m.Ready S F T frame) {a : α} (ha : post T a) :
    Φ.Carried S F T frame post f (.ok a m) (.ok (f a) (Φ.machine m)) :=
  ⟨⟨T, List.prefix_rfl, hm, ha⟩, rfl⟩

theorem carried_error {m : Machine} (hm : m.Ready S F T frame) {stop stop' : Stop}
    (hstop : stop.Respelled Φ.toRespelling F.faults stop') :
    Φ.Carried S F T frame post f (.error stop m) (.error stop' (Φ.machine m)) :=
  ⟨⟨T, List.prefix_rfl, hm⟩, stop', hstop, rfl⟩

theorem pure {a : α} (ha : post T a) :
    Φ.Carries S F T frame post f (pure a) (Pure.pure (f a)) :=
  fun _ hm => carried_ok hm ha

theorem throw {stop stop' : Stop} (hstop : stop.Respelled Φ.toRespelling F.faults stop') :
    Φ.Carries S F T frame post f (throw stop) (MonadExcept.throw stop') :=
  fun _ hm => carried_error hm hstop

/-- Errors that name no variable are the same in every spelling. -/
theorem fail {cause : RuntimeError.Cause} (line : Option Int)
    (hcause : ∀ spell, cause.respell spell = cause := by intro; rfl) :
    Φ.Carries S F T frame post f (Run.fail cause line) (Run.fail cause (line.map Φ.line)) := by
  have hstop : Stop.Respelled Φ.toRespelling F.faults (.error ⟨cause, line⟩)
      (.error ⟨cause.respell (Φ.declared none), line.map Φ.line⟩) := .error cause line none
  rw [hcause] at hstop
  exact throw hstop

theorem fault (h : F.faults) (what : Fault) :
    Φ.Carries S F T frame post f (Run.fault what) (Run.fault what) :=
  throw (.fault h what)

/-- A run is followed by others, which start at the machines that it leaves. -/
theorem bind {g : α → Run γ} {h : β → Run δ} (hx : Φ.Carries S F T frame post f x y)
    (hg : ∀ {T' a}, T <+: T' → post T' a → Φ.Carries S F T' frame post' f' (g a) (h (f a))) :
    Φ.Carries S F T frame post' f' (x >>= g) (y >>= h) := by
  intro m hm
  have hfirst := hx m hm
  rw [bind_apply, bind_apply]
  cases hrun : x m with
  | ok a m' =>
    rw [hrun] at hfirst
    obtain ⟨⟨T', hT, hm', ha⟩, heq⟩ := hfirst
    rw [heq]
    have hrest := hg hT ha m' hm'
    simp only
    cases hnext : g a m' with
    | ok c m'' =>
      rw [hnext] at hrest
      obtain ⟨⟨T'', hT', hm'', hc⟩, heq'⟩ := hrest
      exact ⟨⟨T'', hT.trans hT', hm'', hc⟩, heq'⟩
    | error stop m'' =>
      rw [hnext] at hrest
      obtain ⟨⟨T'', hT', hm''⟩, hstop⟩ := hrest
      exact ⟨⟨T'', hT.trans hT', hm''⟩, hstop⟩
  | error stop m' =>
    rw [hrun] at hfirst
    obtain ⟨hready, stop', hstop, heq⟩ := hfirst
    rw [heq]
    exact ⟨hready, stop', hstop, rfl⟩

theorem map {g : α → γ} {h : β → δ} (hx : Φ.Carries S F T frame post f x y)
    (hg : ∀ {T' a}, T <+: T' → post T' a → post' T' (g a) ∧ f' (g a) = h (f a)) :
    Φ.Carries S F T frame post' f' (g <$> x) (h <$> y) := by
  have hbind : ∀ {ε ζ : Type} (k : ε → ζ) (z : Run ε), k <$> z = z >>= fun e => Pure.pure (k e) :=
    fun _ _ => rfl
  rw [hbind, hbind]
  refine hx.bind fun hT ha => ?_
  rw [← (hg hT ha).2]
  exact .pure (hg hT ha).1

/-- A run that looks at the machine first. -/
theorem get_bind {g : Machine → Run γ} {h : Machine → Run δ}
    (hgh : ∀ m : Machine, m.Ready S F T frame →
      Φ.Carried S F T frame post' f' (g m m) (h (Φ.machine m) (Φ.machine m))) :
    Φ.Carries S F T frame post' f' (get >>= g) (get >>= h) :=
  fun m hm => hgh m hm

/-- Nothing is known of what a run gives. -/
def Anything {α : Type} (_ : Typing) (_ : α) : Prop := True

/-- Changing what is not looked at. -/
theorem change {g : Machine → Machine} (hg : ∀ m, Φ.machine (g m) = g (Φ.machine m))
    (hready : ∀ m, m.Ready S F T frame → (g m).Ready S F T frame) :
    Φ.Carries S F T frame Anything (fun u => u) (modify g) (modify g) := by
  intro m hm
  refine ⟨⟨T, List.prefix_rfl, hready m hm, trivial⟩, ?_⟩
  rw [hg m]
  rfl

end Translation.Carries

/-- Values of ready machines. -/
def Value.Ready (S : Setting) (F : Forms Site) (T : Typing) (v : Value) : Prop :=
  v.Typed S T ∧ v.Within F

theorem Value.Ready.mono {S : Setting} {F : Forms Site} {T T' : Typing} (h : T <+: T') {v : Value}
    (hv : v.Ready S F T) : v.Ready S F T' :=
  ⟨hv.1.mono h, hv.2⟩

theorem Value.ready_atom {S : Setting} {F : Forms Site} {T : Typing} (a : Atom) :
    (Value.atom a).Ready S F T :=
  ⟨trivial, trivial⟩

namespace Machine.Ready
variable {S : Setting} {F : Forms Site} {T : Typing} {frame id : FrameId} {m : Machine}
  {path : List Scope} {name : String} {value : Value}

/-- Only store, distances and current frame matter. -/
theorem congr (h : m.Ready S F T frame) {m' : Machine} (hstore : m'.store = m.store)
    (hdistances : m'.distances = m.distances) (hcurrent : m'.current = m.current) :
    m'.Ready S F T frame where
  typed := h.typed.congr hstore hdistances
  within := by rw [hstore]; exact h.within
  current := hcurrent.trans h.current

theorem define (h : m.Ready S F T frame) (hid : T[id]? = some path)
    (hdeclarable : S.Declarable path name) (hname : F.name name) (hvalue : value.Ready S F T) :
    Machine.Ready S F T frame { m with store := m.store.define id name value } where
  typed := h.typed.define hid hdeclarable hvalue.1
  within := h.within.define id hname hvalue.2
  current := h.current

theorem write (h : m.Ready S F T frame) (id : FrameId) (name : String)
    (hvalue : value.Ready S F T) :
    Machine.Ready S F T frame { m with store := m.store.write id name value } where
  typed := h.typed.write id name hvalue.1
  within := h.within.write id name hvalue.2
  current := h.current

theorem of_read? (h : m.Ready S F T frame) (hread : m.store.read? id name = some value) :
    value.Ready S F T :=
  ⟨h.typed.value hread, h.within.of_read? hread⟩

/-- The frames inside some scopes stem from the innermost of them. -/
theorem exists_frame (h : m.Ready S F T frame) (hid : T[id]? = some path) :
    ∃ f, m.store.frames[id]? = some f ∧ f.origin = path.head?.map Scope.site ∧ f.Within F := by
  obtain ⟨f, hf, htyped⟩ := h.typed.exists_frame hid
  exact ⟨f, hf, htyped.origin, h.within.frame hf⟩

end Machine.Ready

namespace Translation
variable {Φ : Translation} {S : Setting} {F : Forms Site} {T : Typing} {frame id : FrameId}
  {path : List Scope} {name : String} {value : Value} {m : Machine}

@[simp] theorem machine_store (Φ : Translation) (m : Machine) :
    (Φ.machine m).store = m.store.respell Φ.toRespelling := rfl

@[simp] theorem machine_current (Φ : Translation) (m : Machine) :
    (Φ.machine m).current = m.current := rfl

@[simp] theorem machine_distances (Φ : Translation) (m : Machine) :
    (Φ.machine m).distances = Φ.distances m.distances := rfl

namespace Faithful

/-- A frame of a ready machine spells no two names alike. -/
theorem separate (h : Φ.Faithful S F) {f : Frame} (hf : f.Within F) (hname : F.name name) :
    ∀ other ∈ f.names, Φ.declared f.origin name = Φ.declared f.origin other → name = other :=
  fun other hother => h.injective hname (hf.names other hother)

theorem read?_eq (h : Φ.Faithful S F) (hm : m.Ready S F T frame) (hid : T[id]? = some path)
    (hname : F.name name) :
    (Φ.machine m).store.read? id (Φ.declared (path.head?.map Scope.site) name) =
      (m.store.read? id name).map (Value.respell Φ.toRespelling) := by
  obtain ⟨f, hf, horigin, hwithin⟩ := hm.exists_frame hid
  rw [← horigin]
  exact Store.read?_respell _ hf (h.separate hwithin hname)

theorem binds_eq (h : Φ.Faithful S F) (hm : m.Ready S F T frame) (hid : T[id]? = some path)
    (hname : F.name name) :
    (Φ.machine m).store.binds id (Φ.declared (path.head?.map Scope.site) name) =
      m.store.binds id name := by
  rw [Store.binds, h.read?_eq hm hid hname, Store.binds, Option.isSome_map]

theorem define_eq (hm : m.Ready S F T frame) (hid : T[id]? = some path) (name : String)
    (value : Value) :
    Φ.machine { m with store := m.store.define id name value } =
      { Φ.machine m with
        store := (Φ.machine m).store.define id (Φ.declared (path.head?.map Scope.site) name)
          (value.respell Φ.toRespelling) } := by
  obtain ⟨f, hf, horigin, -⟩ := hm.exists_frame hid
  rw [← horigin]
  simp only [machine, Store.respell_define _ hf]

theorem write_eq (h : Φ.Faithful S F) (hm : m.Ready S F T frame) (hid : T[id]? = some path)
    (hname : F.name name) (value : Value) :
    Φ.machine { m with store := m.store.write id name value } =
      { Φ.machine m with
        store := (Φ.machine m).store.write id (Φ.declared (path.head?.map Scope.site) name)
          (value.respell Φ.toRespelling) } := by
  obtain ⟨f, hf, horigin, hwithin⟩ := hm.exists_frame hid
  rw [← horigin]
  simp only [machine, Store.respell_write _ hf (h.separate hwithin hname)]

end Faithful

namespace Carries

theorem define (h : Φ.Faithful S F) (hid : T[id]? = some path)
    (hdeclarable : S.Declarable path name) (hname : F.name name) (hvalue : value.Ready S F T)
    (line : Option Int) :
    Φ.Carries S F T frame Anything (fun u => u) (Run.define id name value line)
      (Run.define id (Φ.declared (path.head?.map Scope.site) name)
        (value.respell Φ.toRespelling) (line.map Φ.line)) := by
  refine get_bind fun m hm => ?_
  rw [h.binds_eq hm hid hname]
  split
  · exact carried_error hm (.error (.alreadyDeclared name) line _)
  · refine ⟨⟨T, List.prefix_rfl, hm.define hid hdeclarable hname hvalue, trivial⟩, ?_⟩
    rw [Faithful.define_eq hm hid]
    rfl

theorem readIn (h : Φ.Faithful S F) (hid : T[id]? = some path) (hname : F.name name)
    (line : Option Int) :
    Φ.Carries S F T frame (Value.Ready S F) (Value.respell Φ.toRespelling)
      (Run.readIn id name line)
      (Run.readIn id (Φ.declared (path.head?.map Scope.site) name) (line.map Φ.line)) := by
  refine get_bind fun m hm => ?_
  rw [h.read?_eq hm hid hname]
  cases hread : m.store.read? id name with
  | none => exact carried_error hm (.error (.notDefined name) line _)
  | some value => exact carried_ok hm (hm.of_read? hread)

theorem writeIn (h : Φ.Faithful S F) (hid : T[id]? = some path) (hname : F.name name)
    (hvalue : value.Ready S F T) (line : Option Int) :
    Φ.Carries S F T frame (Value.Ready S F) (Value.respell Φ.toRespelling)
      (Run.writeIn id name value line)
      (Run.writeIn id (Φ.declared (path.head?.map Scope.site) name)
        (value.respell Φ.toRespelling) (line.map Φ.line)) := by
  refine get_bind fun m hm => ?_
  rw [h.binds_eq hm hid hname]
  split
  · refine ⟨⟨T, List.prefix_rfl, hm.write id name hvalue, hvalue⟩, ?_⟩
    rw [h.write_eq hm hid hname]
    rfl
  · exact carried_error hm (.error (.notDeclared name) line _)

end Carries

end Translation

end Lox
