import Lox.Proofs.Scoping.Frames
import Lox.Proofs.Scoping.Mirroring

/-!
# Searching the frames and jumping to one

Frames that share the frames around them make a forest. A name can be searched for from a frame
outwards, or be taken from the frame at a given distance. At the least distance at which the name is
bound both come upon the same variable, whatever has been made, defined and assigned to before. An
assignment to it is seen by all who come upon that variable, on whichever way, and by nobody else.
-/
namespace Lox
open Outcome

/-- What a run gives, or why it does not, whatever it leaves. -/
def Outcome.reply {ε σ α : Type} : EStateM.Result ε σ α → Except ε α
  | .ok a _ => .ok a
  | .error e _ => .error e

/-- Machines whose frames have been made one after the other, alone or inside an older one, and whose
variables have been defined and assigned to in any order, with success or without. -/
inductive Machine.Forest : Machine → Prop where
  | bare {m : Machine} (h : m.store = .empty) : Forest m
  | plant {m : Machine} (h : Forest m) (origin : Option Site) :
      Forest { m with store := m.store.push [] origin }
  | enter {m : Machine} (h : Forest m) {parent : FrameId} (hparent : parent < m.store.next)
      (origin : Option Site) : Forest (final (Run.enter parent origin m))
  | define {m : Machine} (h : Forest m) {id : FrameId} (hid : id < m.store.next) (name : String)
      (value : Value) (line : Option Int) : Forest (final (Run.define id name value line m))
  | assign {m : Machine} (h : Forest m) {id : FrameId} (hid : id < m.store.next) (name : String)
      (value : Value) (line : Option Int) : Forest (final (Run.assign id name value line m))
  | assignAt {m : Machine} (h : Forest m) {id : FrameId} (hid : id < m.store.next)
      (distance : Nat) (name : String) (value : Value) (line : Option Int) :
      Forest (final (Run.assignAt id distance name value line m))

namespace Frame
variable {f : Frame} {name key : String} {value : Value}

/-- An update changes the value of its name only, and only if there is one. -/
theorem find?_update : (f.update name value).find? key =
    if key = name then (f.find? key).map fun _ => value else f.find? key := by
  obtain ⟨outer, origin, bindings⟩ := f
  simp only [update, find?]
  induction bindings with
  | nil => simp
  | cons b bs ih =>
    obtain ⟨bound, old⟩ := b
    rw [List.map_cons, List.lookup_cons, List.lookup_cons, ih]
    by_cases hbound : bound = name <;> by_cases hkey : key = bound <;> grind

end Frame

namespace Store
variable {s : Store} {id other frame : FrameId} {name key : String} {distance : Nat}

/-- The frame so many steps out of another, each step being one to the frame around. -/
def climb (s : Store) : Nat → FrameId → Option FrameId
  | 0, id => if id < s.next then some id else none
  | distance + 1, id => (s.parent? id).bind (s.climb distance)

/-- A name is bound in the frame so many steps out. -/
def BoundAt (s : Store) (id : FrameId) (name : String) (distance : Nat) : Prop :=
  ∃ frame, s.climb distance id = some frame ∧ s.binds frame name = true

/-- The least distance at which a name is bound. -/
structure NearestAt (s : Store) (id : FrameId) (name : String) (distance : Nat) : Prop where
  bound : s.BoundAt id name distance
  least : ∀ {further : Nat}, s.BoundAt id name further → distance ≤ further

/-- A frame is the nearest one outwards that binds a name. -/
def Finds (s : Store) (id : FrameId) (name : String) (frame : FrameId) : Prop :=
  ∃ distance, s.NearestAt id name distance ∧ s.climb distance id = some frame

/-- Every frame stands alone or inside an older one, whose chain goes on its own. -/
structure Grove (s : Store) : Prop where
  outwards : ∀ {id}, id < s.next →
    s.chain id = [id] ∨ ∃ parent < id, s.chain id = id :: s.chain parent

theorem chain_eq_nil (h : ¬ id < s.next) : s.chain id = [] := by
  rw [chain, Array.getElem?_eq_none (Nat.not_lt.mp h)]

namespace Grove

theorem plant (h : s.Grove) (origin : Option Site) : (s.push [] origin).Grove := by
  refine ⟨fun {id} hid => ?_⟩
  by_cases hold : id < s.next
  · rw [chain_push_of_lt hold]
    refine (h.outwards hold).imp_right fun ⟨parent, hlt, hchain⟩ => ⟨parent, hlt, ?_⟩
    rw [chain_push_of_lt (Nat.lt_trans hlt hold), hchain]
  · obtain rfl := eq_next_of_lt_push hid hold
    exact .inl (chain_push_next s [] origin)

theorem push (h : s.Grove) (hother : other < s.next) (origin : Option Site) :
    (s.push (s.chain other) origin).Grove := by
  refine ⟨fun {id} hid => ?_⟩
  by_cases hold : id < s.next
  · rw [chain_push_of_lt hold]
    refine (h.outwards hold).imp_right fun ⟨parent, hlt, hchain⟩ => ⟨parent, hlt, ?_⟩
    rw [chain_push_of_lt (Nat.lt_trans hlt hold), hchain]
  · obtain rfl := eq_next_of_lt_push hid hold
    exact .inr ⟨other, hother, by rw [chain_push_next, chain_push_of_lt hother]⟩

theorem define (h : s.Grove) (id : FrameId) (name : String) (value : Value) :
    (s.define id name value).Grove := by
  refine ⟨fun {other} hother => ?_⟩
  rw [next_define] at hother
  simpa only [chain_define] using h.outwards hother

theorem write (h : s.Grove) (id : FrameId) (name : String) (value : Value) :
    (s.write id name value).Grove := by
  refine ⟨fun {other} hother => ?_⟩
  rw [next_write] at hother
  simpa only [chain_write] using h.outwards hother

/-- The chain of a frame is where the steps outwards lead. -/
theorem climb_eq (h : s.Grove) (distance : Nat) (id : FrameId) :
    s.climb distance id = s.ancestor? id distance := by
  induction distance generalizing id with
  | zero =>
    rw [climb, ancestor?, ← List.head?_eq_getElem?]
    by_cases hid : id < s.next
    · rw [if_pos hid, head?_chain hid]
    · rw [if_neg hid, chain_eq_nil hid, List.head?_nil]
  | succ distance ih =>
    rw [climb, ancestor?, parent?_eq]
    by_cases hid : id < s.next
    · rcases h.outwards hid with hchain | ⟨parent, hlt, hchain⟩
      · rw [hchain]
        rfl
      · rw [hchain, List.tail_cons, head?_chain (Nat.lt_trans hlt hid)]
        exact ih parent
    · rw [chain_eq_nil hid]
      rfl

/-- The innermost frame of a chain that binds a name stands at the least distance. -/
theorem owner?_of_nearestAt (h : s.Grove) (hnearest : s.NearestAt id name distance)
    (hframe : s.climb distance id = some frame) : s.owner? id name = some frame := by
  rw [h.climb_eq] at hframe
  obtain ⟨hlt, hget⟩ := List.getElem?_eq_some_iff.mp hframe
  obtain ⟨found, hfound, hbinds⟩ := hnearest.bound
  rw [h.climb_eq, hframe] at hfound
  cases hfound
  rw [owner?, List.find?_eq_some_iff_getElem]
  refine ⟨hbinds, distance, hlt, hget, fun nearer hnearer => ?_⟩
  have hclimb : s.climb nearer id = some (s.chain id)[nearer] := by
    rw [h.climb_eq, ancestor?, List.getElem?_eq_getElem]
  cases hnearby : s.binds (s.chain id)[nearer] name with
  | false => rfl
  | true => exact absurd (hnearest.least ⟨_, hclimb, hnearby⟩) (Nat.not_le.mpr hnearer)

theorem finds_of_owner? (h : s.Grove) (howner : s.owner? id name = some frame) :
    s.Finds id name frame := by
  rw [owner?, List.find?_eq_some_iff_getElem] at howner
  obtain ⟨hbinds, distance, hlt, hget, hinner⟩ := howner
  have hclimb : s.climb distance id = some frame := by
    rw [h.climb_eq, ancestor?, List.getElem?_eq_some_iff]
    exact ⟨hlt, hget⟩
  refine ⟨distance, ⟨⟨frame, hclimb, hbinds⟩, fun {further} hfurther => ?_⟩, hclimb⟩
  obtain ⟨found, hfound, hbound⟩ := hfurther
  rw [h.climb_eq] at hfound
  obtain ⟨hlt', hget'⟩ := List.getElem?_eq_some_iff.mp hfound
  refine Nat.not_lt.mp fun hnearer => ?_
  have hfree := hinner further hnearer
  rw [hget', hbound] at hfree
  cases hfree

theorem finds_iff (h : s.Grove) : s.Finds id name frame ↔ s.owner? id name = some frame :=
  ⟨fun ⟨_, hnearest, hframe⟩ => h.owner?_of_nearestAt hnearest hframe, h.finds_of_owner?⟩

end Grove

theorem read?_write {value : Value} : (s.write frame name value).read? id key =
    if id = frame ∧ key = name then (s.read? id key).map fun _ => value else s.read? id key := by
  rw [read?, read?, frame_write]
  by_cases hid : frame = id
  · subst hid
    cases hf : s.frames[frame]? with
    | none => simp
    | some f => simp [Frame.find?_update]
  · simp [hid, Ne.symm hid]

theorem owner?_write {value : Value} : (s.write frame name value).owner? id key = s.owner? id key := by
  rw [owner?, owner?, chain_write]
  congr 1
  funext other
  exact Bool.eq_iff_iff.mpr (binds_write value key)

end Store

namespace Run
variable {m m' : Machine} {id owner : FrameId} {name : String} {value : Value} {line : Option Int}
  {stop : Stop}

theorem lookup_apply (h : m.store.owner? id name = some owner) (line : Option Int) :
    lookup id name line m = readIn owner name line m := by
  simp [lookup, h]

theorem assign_apply (h : m.store.owner? id name = some owner) (value : Value) (line : Option Int) :
    assign id name value line m = writeIn owner name value line m := by
  simp [assign, h]

theorem final_define (m : Machine) (id : FrameId) (name : String) (value : Value)
    (line : Option Int) : (final (define id name value line m)).store = m.store ∨
    (final (define id name value line m)).store = m.store.define id name value := by
  by_cases h : m.store.binds id name = true
  · exact .inl (by simp [define, h, fail, final])
  · exact .inr (by simp [define, h, final])

theorem final_writeIn : (final (writeIn id name value line m)).store = m.store ∨
    (final (writeIn id name value line m)).store = m.store.write id name value := by
  by_cases h : m.store.binds id name = true
  · exact .inr (by simp [writeIn, h, final])
  · exact .inl (by simp [writeIn, h, fail, final])

theorem final_assign (m : Machine) (id : FrameId) (name : String) (value : Value)
    (line : Option Int) : (final (assign id name value line m)).store = m.store ∨
    ∃ owner, (final (assign id name value line m)).store = m.store.write owner name value := by
  cases h : m.store.owner? id name with
  | none => exact .inl (by simp [assign, h, fail, final])
  | some owner =>
    rw [assign_apply h]
    exact final_writeIn.imp_right fun hstore => ⟨owner, hstore⟩

theorem assignAt_of_none {distance : Nat} (h : m.store.ancestor? id distance = none) (name : String)
    (value : Value) (line : Option Int) :
    assignAt id distance name value line m = .error (.fault .noSuchScope) m := by
  have hancestor : ancestor id distance m = .error (.fault .noSuchScope) m := by
    simp [ancestor, h, fault]
  exact bind_of_error hancestor _

theorem final_assignAt (m : Machine) (id : FrameId) (distance : Nat) (name : String) (value : Value)
    (line : Option Int) :
    (final (assignAt id distance name value line m)).store = m.store ∨
      ∃ owner, (final (assignAt id distance name value line m)).store =
        m.store.write owner name value := by
  cases h : m.store.ancestor? id distance with
  | none => exact .inl (by rw [assignAt_of_none h, final])
  | some owner =>
    rw [assignAt_apply h]
    exact final_writeIn.imp_right fun hstore => ⟨owner, hstore⟩

/-- A definition that fails changes nothing. -/
theorem eq_of_define_error (h : define id name value line m = .error stop m') : m' = m := by
  by_cases hbinds : m.store.binds id name = true
  · simp only [define, get_bind_apply, hbinds, if_true] at h
    cases h
    rfl
  · simp only [define, get_bind_apply, hbinds, Bool.false_eq_true, if_false] at h
    cases h

theorem eq_of_writeIn_error (h : writeIn id name value line m = .error stop m') : m' = m := by
  by_cases hbinds : m.store.binds id name = true
  · simp only [writeIn, get_bind_apply, hbinds, if_true] at h
    cases h
  · rw [writeIn_of_not_binds hbinds] at h
    cases h
    rfl

/-- An assignment that fails changes nothing, -/
theorem eq_of_assign_error (h : assign id name value line m = .error stop m') : m' = m := by
  cases howner : m.store.owner? id name with
  | none =>
    simp only [assign, get_bind_apply, howner] at h
    cases h
    rfl
  | some owner =>
    rw [assign_apply howner] at h
    exact eq_of_writeIn_error h

/-- however its variable is found. -/
theorem eq_of_assignAt_error {distance : Nat}
    (h : assignAt id distance name value line m = .error stop m') : m' = m := by
  cases hancestor : m.store.ancestor? id distance with
  | none =>
    rw [assignAt_of_none hancestor] at h
    cases h
    rfl
  | some owner =>
    rw [assignAt_apply hancestor] at h
    exact eq_of_writeIn_error h

theorem reply_readIn : reply (readIn id name line m) =
    (m.store.read? id name).elim (.error (.error ⟨.notDefined name, line⟩)) .ok := by
  cases h : m.store.read? id name <;> simp [readIn, h, fail, reply]

theorem reply_lookup : reply (lookup id name line m) =
    ((m.store.owner? id name).bind (m.store.read? · name)).elim
      (.error (.error ⟨.notDefined name, line⟩)) .ok := by
  cases h : m.store.owner? id name with
  | none => simp [lookup, h, fail, reply]
  | some owner => rw [lookup_apply h, reply_readIn, Option.bind_some]

theorem reply_lookupAt {distance : Nat} : reply (lookupAt id distance name line m) =
    (m.store.ancestor? id distance).elim (.error (.fault .noSuchScope)) fun owner =>
      (m.store.read? owner name).elim (.error (.error ⟨.notDefined name, line⟩)) .ok := by
  cases h : m.store.ancestor? id distance with
  | none => simp [lookupAt, bind_apply, ancestor, h, fault, reply]
  | some owner => rw [lookupAt_apply h, reply_readIn, Option.elim_some]

end Run

namespace Machine
variable {m m' : Machine}

theorem Forest.grove (h : m.Forest) : m.store.Grove := by
  induction h with
  | bare h =>
    refine ⟨fun {id} hid => ?_⟩
    rw [h] at hid
    exact absurd hid (Nat.not_lt_zero id)
  | plant _ origin ih => exact ih.plant origin
  | enter _ hparent origin ih => exact ih.push hparent origin
  | @define m _ id _ name value line ih =>
    rcases Run.final_define m id name value line with h | h
    · exact h ▸ ih
    · exact h ▸ ih.define id name value
  | @assign m _ id _ name value line ih =>
    rcases Run.final_assign m id name value line with h | ⟨owner, h⟩
    · exact h ▸ ih
    · exact h ▸ ih.write owner name value
  | @assignAt m _ id _ distance name value line ih =>
    rcases Run.final_assignAt m id distance name value line with h | ⟨owner, h⟩
    · exact h ▸ ih
    · exact h ▸ ih.write owner name value

/-- One machine is another with a new value of the variable `key` of one frame: whoever comes upon
that variable finds the value, and whoever does not finds what was there before. -/
structure Differs (m m' : Machine) (frame : FrameId) (key : String) (value : Value) : Prop where
  searched : ∀ id line, m.store.Finds id key frame → reply (Run.lookup id key line m') = .ok value
  searchedElse : ∀ id name line, ¬ (m.store.Finds id name frame ∧ name = key) →
    reply (Run.lookup id name line m') = reply (Run.lookup id name line m)
  jumped : ∀ id distance line, m.store.climb distance id = some frame →
    reply (Run.lookupAt id distance key line m') = .ok value
  jumpedElse : ∀ id distance name line, ¬ (m.store.climb distance id = some frame ∧ name = key) →
    reply (Run.lookupAt id distance name line m') = reply (Run.lookupAt id distance name line m)

theorem Forest.differs_write (h : m.Forest) {frame : FrameId} {key : String}
    (hbinds : m.store.binds frame key = true) (value : Value) :
    m.Differs { m with store := m.store.write frame key value } frame key value where
  searched id line hfinds := by
    obtain ⟨old, hold⟩ := Option.isSome_iff_exists.mp hbinds
    have howner := h.grove.finds_iff.mp hfinds
    rw [Run.reply_lookup, Store.owner?_write, howner, Option.bind_some, Store.read?_write,
      if_pos ⟨rfl, rfl⟩, hold]
    rfl
  searchedElse id name line hother := by
    rw [Run.reply_lookup, Run.reply_lookup, Store.owner?_write]
    cases howner : m.store.owner? id name with
    | none => rfl
    | some owner =>
      have hne : ¬ (owner = frame ∧ name = key) := fun ⟨hframe, hname⟩ =>
        hother ⟨h.grove.finds_iff.mpr (hframe ▸ howner), hname⟩
      rw [Option.bind_some, Option.bind_some, Store.read?_write, if_neg hne]
  jumped id distance line hframe := by
    obtain ⟨old, hold⟩ := Option.isSome_iff_exists.mp hbinds
    rw [h.grove.climb_eq] at hframe
    rw [Run.reply_lookupAt, Store.ancestor?, Store.chain_write, ← Store.ancestor?, hframe,
      Option.elim_some, Store.read?_write, if_pos ⟨rfl, rfl⟩, hold]
    rfl
  jumpedElse id distance name line hother := by
    rw [h.grove.climb_eq] at hother
    rw [Run.reply_lookupAt, Run.reply_lookupAt, Store.ancestor?, Store.chain_write,
      ← Store.ancestor?]
    cases howner : m.store.ancestor? id distance with
    | none => rfl
    | some owner =>
      have hne : ¬ (owner = frame ∧ name = key) := fun ⟨hframe, hname⟩ =>
        hother ⟨hframe ▸ howner, hname⟩
      rw [Option.elim_some, Option.elim_some, Store.read?_write, if_neg hne]

/-- A search succeeds where the name is bound at some distance. -/
theorem Forest.lookup_succeeds_iff (h : m.Forest) {id : FrameId} {name : String}
    {line : Option Int} : (∃ found, reply (Run.lookup id name line m) = .ok found) ↔
      ∃ distance, m.store.BoundAt id name distance := by
  rw [Run.reply_lookup]
  constructor
  · rintro ⟨found, hfound⟩
    cases howner : m.store.owner? id name with
    | none => simp [howner] at hfound
    | some owner =>
      obtain ⟨distance, hnearest, -⟩ := h.grove.finds_of_owner? howner
      exact ⟨distance, hnearest.bound⟩
  · rintro ⟨distance, frame, hclimb, hbinds⟩
    rw [h.grove.climb_eq] at hclimb
    cases howner : m.store.owner? id name with
    | none =>
      exact absurd hbinds (List.find?_eq_none.mp howner frame (List.mem_of_getElem? hclimb))
    | some owner =>
      have hbound : m.store.binds owner name = true := by
        simpa using List.find?_some (p := (m.store.binds · name)) howner
      obtain ⟨found, hfound⟩ := Option.isSome_iff_exists.mp hbound
      exact ⟨found, by rw [Option.bind_some, hfound, Option.elim_some]⟩

/-- In a forest of frames a search succeeds exactly where its name is bound at some distance, and
from the least such distance searching is jumping there: it reads the same value, and an assignment
has the same effect, which is to give that variable its value and every other the value it had, for
all who look. What fails changes nothing. -/
theorem Forest.search_is_jump (h : m.Forest) (id : FrameId) (name : String) (line : Option Int) :
    ((∃ found, reply (Run.lookup id name line m) = .ok found) ↔
      ∃ distance, m.store.BoundAt id name distance) ∧
    (∀ {distance : Nat}, m.store.NearestAt id name distance →
      Run.lookup id name line m = Run.lookupAt id distance name line m ∧
      ∀ value, ∃ (frame : FrameId) (m' : Machine), m.store.climb distance id = some frame ∧
        Run.assign id name value line m = .ok value m' ∧
        Run.assignAt id distance name value line m = .ok value m' ∧
        m.Differs m' frame name value) ∧
    (∀ {value : Value} {stop : Stop} {m' : Machine},
      (Run.define id name value line m = .error stop m' → m' = m) ∧
      (Run.assign id name value line m = .error stop m' → m' = m) ∧
      ∀ distance, Run.assignAt id distance name value line m = .error stop m' → m' = m) := by
  refine ⟨h.lookup_succeeds_iff, fun {distance} hnearest => ?_, fun {value stop m'} =>
    ⟨Run.eq_of_define_error, Run.eq_of_assign_error, fun _ => Run.eq_of_assignAt_error⟩⟩
  obtain ⟨frame, hclimb, hbinds⟩ := hnearest.bound
  have howner := h.grove.owner?_of_nearestAt hnearest hclimb
  have hancestor := h.grove.climb_eq distance id ▸ hclimb
  refine ⟨by rw [Run.lookup_apply howner, Run.lookupAt_apply hancestor], fun value => ?_⟩
  have hwrite : Run.writeIn frame name value line m =
      .ok value { m with store := m.store.write frame name value } := by
    simp [Run.writeIn, hbinds]
  exact ⟨frame, _, hclimb, (Run.assign_apply howner value line).trans hwrite,
    (Run.assignAt_apply hancestor value line).trans hwrite, h.differs_write hbinds value⟩

/-- Two frames around which there is the same one, which binds a name. -/
def siblings : Machine :=
  { Machine.initial (fun _ => 0) with
    store := ⟨#[⟨[], none, [("x", .nil)]⟩, ⟨[0], none, []⟩, ⟨[0], none, []⟩]⟩ }

theorem siblings_forest : siblings.Forest :=
  have hroot : Forest { siblings with store := ⟨#[⟨[], none, [("x", .nil)]⟩]⟩ } :=
    have hbare : Forest { siblings with store := .empty } := .bare rfl
    (hbare.plant none).define Nat.zero_lt_one "x" .nil none
  have hchild : Forest
      { siblings with store := ⟨#[⟨[], none, [("x", .nil)]⟩, ⟨[0], none, []⟩]⟩ } :=
    hroot.enter Nat.zero_lt_one none
  hchild.enter (Nat.zero_lt_succ 1) none

/-- Neither of them binds the name itself. -/
theorem siblings_nearestAt {id : FrameId} (hid : id = 1 ∨ id = 2) :
    siblings.store.NearestAt id "x" 1 ∧ siblings.store.climb 1 id = some 0 := by
  have hfree : ¬ siblings.store.BoundAt id "x" 0 := by
    rintro ⟨frame, hframe, hbinds⟩
    have hself : siblings.store.climb 0 id = some id := by
      rcases hid with rfl | rfl <;> rfl
    cases hself.symm.trans hframe
    rcases hid with rfl | rfl <;> cases hbinds
  have hclimb : siblings.store.climb 1 id = some 0 := by
    rcases hid with rfl | rfl <;> rfl
  have hbinds : siblings.store.binds 0 "x" = true := by
    simp [Store.binds, Store.read?, siblings, Frame.find?]
  refine ⟨⟨⟨0, hclimb, hbinds⟩, fun {further} hfurther => ?_⟩, hclimb⟩
  exact Nat.pos_of_ne_zero fun hzero => hfree (hzero ▸ hfurther)

/-- What is assigned to from one of them is seen from the other. -/
theorem search_is_jump_of_siblings :
    siblings.Forest ∧ siblings.store.NearestAt 1 "x" 1 ∧
      ∃ m', Run.assign 1 "x" (.bool true) none siblings = .ok (.bool true) m' ∧
        reply (Run.lookup 2 "x" none m') = .ok (.bool true) := by
  obtain ⟨hnearest, hclimb⟩ := siblings_nearestAt (.inl rfl)
  obtain ⟨frame, m', hframe, hassign, -, hdiffers⟩ :=
    ((siblings_forest.search_is_jump 1 "x" none).2.1 hnearest).2 (.bool true)
  cases hclimb.symm.trans hframe
  exact ⟨siblings_forest, hnearest, m', hassign,
    hdiffers.searched 2 none ⟨1, siblings_nearestAt (.inr rfl)⟩⟩

end Machine
end Lox
