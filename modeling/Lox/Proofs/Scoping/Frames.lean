import Lox.Machine.Evaluation
import Lox.Proofs.Outcome
import Lox.Proofs.Store

/-!
# Frames around frames

Every frame but the globals is made inside an older one, its parent, so the way outwards from any
frame ends at the globals. Making frames, defining names and assigning to them leaves every frame in
its place, and takes away none of the names that it binds.
-/
namespace Lox
open Outcome

namespace Store
variable {s : Store} {id parent : FrameId}

/-- The frame that a frame stands in. -/
def parent? (s : Store) (id : FrameId) : Option FrameId :=
  s.frames[id]?.bind (·.outer.head?)

/-- The frames from one frame outwards: each is the parent of the one before it, and the last one has
no parent. -/
inductive Outward (s : Store) : FrameId → List FrameId → Prop where
  | outermost {id : FrameId} (hid : id < s.next) (h : s.parent? id = none) : Outward s id [id]
  | inside {id parent : FrameId} {ids : List FrameId} (h : s.parent? id = some parent)
    (rest : Outward s parent ids) : Outward s id (id :: ids)

/-- Every frame but the globals stands in an older one, and its chain goes on with the chain of that
one. -/
structure Rooted (s : Store) : Prop where
  globals : s.chain Machine.globals = [Machine.globals]
  inside : ∀ {id}, id < s.next → id ≠ Machine.globals →
    ∃ parent < id, s.chain id = id :: s.chain parent

theorem parent?_eq (s : Store) (id : FrameId) : s.parent? id = (s.chain id).tail.head? := by
  cases h : s.frames[id]? <;> simp [parent?, chain, h]

theorem head?_chain (h : id < s.next) : (s.chain id).head? = some id := by
  obtain ⟨f, hf⟩ := exists_frame h
  simp [chain, hf]

theorem lt_next_of_head?_chain (h : (s.chain id).head? = some id) : id < s.next := by
  cases hf : s.frames[id]? with
  | none => simp [chain, hf] at h
  | some f => exact lt_next hf

/-- The chain of a frame is the way outwards, which ends at the globals. -/
theorem Rooted.outward (h : s.Rooted) (hid : id < s.next) :
    s.Outward id (s.chain id) ∧ (s.chain id).getLast? = some Machine.globals := by
  induction id using Nat.strongRecOn with
  | _ id ih =>
    by_cases hglobals : id = Machine.globals
    · subst hglobals
      rw [h.globals]
      exact ⟨.outermost hid (by rw [parent?_eq, h.globals]; rfl), rfl⟩
    · obtain ⟨parent, hlt, hchain⟩ := h.inside hid hglobals
      have hparent : parent < s.next := Nat.lt_trans hlt hid
      obtain ⟨houtward, hlast⟩ := ih parent hlt hparent
      have hstep : s.parent? id = some parent := by
        rw [parent?_eq, hchain, List.tail_cons, head?_chain hparent]
      rw [hchain, List.getLast?_cons, hlast]
      exact ⟨.inside hstep houtward, rfl⟩

theorem chain_push_of_lt (h : id < s.next) (outer : List FrameId) (origin : Option Site) :
    (s.push outer origin).chain id = s.chain id := by
  rw [chain, frame_push_of_lt h, chain]

theorem chain_push_next (s : Store) (outer : List FrameId) (origin : Option Site) :
    (s.push outer origin).chain s.next = s.next :: outer := by
  rw [chain, frame_push_next]

theorem eq_next_of_lt_push {outer : List FrameId} {origin : Option Site}
    (h : id < (s.push outer origin).next) (hnew : ¬id < s.next) : id = s.next := by
  rw [next_push] at h
  exact Nat.le_antisymm (Nat.lt_succ_iff.mp h) (Nat.not_lt.mp hnew)

theorem Rooted.push (h : s.Rooted) (hid : id < s.next) (origin : Option Site) :
    (s.push (s.chain id) origin).Rooted := by
  have hglobals : Machine.globals < s.next :=
    lt_next_of_head?_chain (by rw [h.globals]; rfl)
  refine ⟨by rw [chain_push_of_lt hglobals, h.globals], fun {other} hother hne => ?_⟩
  by_cases hold : other < s.next
  · obtain ⟨parent, hlt, hchain⟩ := h.inside hold hne
    refine ⟨parent, hlt, ?_⟩
    rw [chain_push_of_lt hold, chain_push_of_lt (Nat.lt_trans hlt hold), hchain]
  · obtain rfl := eq_next_of_lt_push hother hold
    exact ⟨id, hid, by rw [chain_push_next, chain_push_of_lt hid]⟩

theorem Rooted.define (h : s.Rooted) (id : FrameId) (name : String) (value : Value) :
    (s.define id name value).Rooted where
  globals := by rw [chain_define, h.globals]
  inside := by
    intro other hother hne
    rw [next_define] at hother
    simpa only [chain_define] using h.inside hother hne

theorem Rooted.write (h : s.Rooted) (id : FrameId) (name : String) (value : Value) :
    (s.write id name value).Rooted where
  globals := by rw [chain_write, h.globals]
  inside := by
    intro other hother hne
    rw [next_write] at hother
    simpa only [chain_write] using h.inside hother hne

theorem mem_names_iff {name : String} : name ∈ s.names id ↔ s.binds id name = true := by
  rw [binds_iff]
  cases h : s.frames[id]? <;> simp [names, h, Frame.mem_names_iff]

theorem names_eq_nil (h : ¬id < s.next) : s.names id = [] := by
  have hnone : s.frames[id]? = none := Array.getElem?_eq_none (Nat.not_lt.mp h)
  rw [names, hnone]
  rfl

/-- A new frame binds no names. -/
theorem names_push (s : Store) (outer : List FrameId) (origin : Option Site) (id : FrameId) :
    (s.push outer origin).names id = s.names id := by
  by_cases hold : id < s.next
  · rw [names, frame_push_of_lt hold, names]
  · rw [names_eq_nil hold]
    by_cases hlt : id < (s.push outer origin).next
    · rw [eq_next_of_lt_push hlt hold, names, frame_push_next]
      rfl
    · exact names_eq_nil hlt

theorem names_prefix_define (s : Store) (id : FrameId) (name : String) (value : Value)
    (other : FrameId) : s.names other <+: (s.define id name value).names other := by
  rw [names, names, frame_define]
  split
  · cases s.frames[other]? with
    | none => exact List.prefix_rfl
    | some f => exact ⟨[name], (f.names_define name value).symm⟩
  · exact List.prefix_rfl

theorem names_write (s : Store) (id : FrameId) (name : String) (value : Value) (other : FrameId) :
    (s.write id name value).names other = s.names other := by
  rw [names, names, frame_write]
  split
  · cases s.frames[other]? with
    | none => rfl
    | some f => exact f.names_update name value
  · rfl

end Store

/-- A value that was made when there were only frames in front of `next`. -/
def Value.Made (next : FrameId) : Value → Prop
  | .closure f => f.frame < next
  | .atom _ | .native _ => True

theorem Value.Made.mono {next next' : FrameId} (h : next ≤ next') :
    ∀ {value : Value}, value.Made next → value.Made next'
  | .closure _, hframe => Nat.lt_of_lt_of_le hframe h
  | .atom _, _ => trivial
  | .native _, _ => trivial

/-- Machines whose frames stand in one another, as the current one does and those of the stored
functions. -/
structure Machine.Sound (m : Machine) : Prop where
  rooted : m.store.Rooted
  current : m.current < m.store.next
  stored : ∀ {id : FrameId} {f : Frame}, m.store.frames[id]? = some f →
    ∀ b ∈ f.bindings, b.2.Made m.store.next

/-- What a run leaves of the machine that it was begun at: the same frame is current, every frame
stands where it stood, and binds the names that it bound. -/
structure Machine.Outlives (m m' : Machine) : Prop where
  sound : m'.Sound
  current : m'.current = m.current
  next : m.store.next ≤ m'.store.next
  chain : ∀ {id}, id < m.store.next → m'.store.chain id = m.store.chain id
  names : ∀ id, m.store.names id <+: m'.store.names id

namespace Machine
variable {m m' m'' : Machine} {id : FrameId} {name : String} {value : Value}

theorem Outlives.trans (h : m.Outlives m') (h' : m'.Outlives m'') : m.Outlives m'' where
  sound := h'.sound
  current := h'.current.trans h.current
  next := Nat.le_trans h.next h'.next
  chain hid := (h'.chain (Nat.lt_of_lt_of_le hid h.next)).trans (h.chain hid)
  names id := (h.names id).trans (h'.names id)

namespace Sound

theorem initial (clock : Nat → Float) : (Machine.initial clock).Sound where
  rooted := by
    have hempty : (Store.empty.push [] none).chain globals = [globals] := rfl
    have hrooted : (Store.empty.push [] none).Rooted :=
      ⟨hempty, fun {id} hid hne => absurd (Nat.lt_one_iff.mp hid) hne⟩
    exact hrooted.define _ _ _
  current := Nat.zero_lt_one
  stored := by
    intro id f hf b hb
    have hframes : (Machine.initial clock).store.frames =
      #[⟨[], none, [("clock", .native .clock)]⟩] := rfl
    rw [hframes, Array.getElem?_eq_some_iff] at hf
    obtain ⟨hid, rfl⟩ := hf
    obtain rfl : id = 0 := Nat.lt_one_iff.mp hid
    rw [List.mem_singleton.mp hb]
    trivial

/-- Nothing has happened to the frames. -/
theorem congr (h : m.Sound) (hstore : m'.store = m.store) (hcurrent : m'.current = m.current) :
    m'.Sound :=
  ⟨hstore ▸ h.rooted, by rw [hstore, hcurrent]; exact h.current, by rw [hstore]; exact h.stored⟩

theorem outlives_of_eq (h : m.Sound) (hstore : m'.store = m.store) (hcurrent : m'.current = m.current) :
    m.Outlives m' where
  sound := h.congr hstore hcurrent
  current := hcurrent
  next := Nat.le_of_eq (by rw [hstore])
  chain _ := by rw [hstore]
  names id := by simp [hstore]

theorem outlives_self (h : m.Sound) : m.Outlives m := h.outlives_of_eq rfl rfl

theorem of_read? (h : m.Sound) (hread : m.store.read? id name = some value) :
    value.Made m.store.next := by
  obtain ⟨f, hf, hfind⟩ := Option.bind_eq_some_iff.mp hread
  exact h.stored hf _ (Frame.mem_of_find? hfind)

/-- Another frame is current. -/
theorem inFrame (h : m.Sound) (hid : id < m.store.next) : Machine.Sound { m with current := id } :=
  ⟨h.rooted, hid, h.stored⟩

/-- A frame is made inside another one. -/
theorem push (h : m.Sound) (hid : id < m.store.next) (origin : Option Site) :
    m.Outlives { m with store := m.store.push (m.store.chain id) origin } where
  sound := by
    have hnext : m.store.next ≤ (m.store.push (m.store.chain id) origin).next := by simp
    refine ⟨h.rooted.push hid origin, Nat.lt_of_lt_of_le h.current hnext, fun {other f} hf => ?_⟩
    by_cases hold : other < m.store.next
    · rw [Store.frame_push_of_lt hold] at hf
      exact fun b hb => (h.stored hf b hb).mono hnext
    · rw [Store.eq_next_of_lt_push (Store.lt_next hf) hold, Store.frame_push_next] at hf
      cases hf
      simp
  current := rfl
  next := by simp
  chain hother := Store.chain_push_of_lt hother _ _
  names other := by simp [Store.names_push]

theorem define (h : m.Sound) (id : FrameId) (name : String) (hvalue : value.Made m.store.next) :
    m.Outlives { m with store := m.store.define id name value } where
  sound := by
    refine ⟨h.rooted.define id name value, by simpa using h.current, fun {other f} hf => ?_⟩
    simp only [Store.next_define]
    rw [Store.frame_define] at hf
    split at hf
    · obtain ⟨g, hg, rfl⟩ := Option.map_eq_some_iff.mp hf
      intro b hb
      rcases List.mem_append.mp hb with hold | hnew
      · exact h.stored hg b hold
      · rw [List.mem_singleton.mp hnew]
        exact hvalue
    · exact h.stored hf
  current := rfl
  next := by simp
  chain _ := Store.chain_define _ _ _ _ _
  names := m.store.names_prefix_define id name value

theorem write (h : m.Sound) (id : FrameId) (name : String) (hvalue : value.Made m.store.next) :
    m.Outlives { m with store := m.store.write id name value } where
  sound := by
    refine ⟨h.rooted.write id name value, by simpa using h.current, fun {other f} hf => ?_⟩
    simp only [Store.next_write]
    rw [Store.frame_write] at hf
    split at hf
    · obtain ⟨g, hg, rfl⟩ := Option.map_eq_some_iff.mp hf
      intro b hb
      obtain ⟨c, hc, rfl⟩ := List.mem_map.mp hb
      split
      · exact hvalue
      · exact h.stored hg c hc
    · exact h.stored hf
  current := rfl
  next := by simp
  chain _ := Store.chain_write _ _ _ _ _
  names other := by simp [Store.names_write]

end Sound

end Machine

end Lox
