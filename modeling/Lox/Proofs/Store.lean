import Lox.Store

/-!
# The history of a store

Frames and bindings are only ever added, and nothing is taken away. So the bindings of a frame tell
which declarations have been executed in it: a frame binds a name from the declaration of that name
on, and not before.
-/
namespace Lox

namespace Frame
variable {f : Frame} {name other : String} {value : Value}

theorem mem_names_iff : name ∈ f.names ↔ f.binds name = true := by
  obtain ⟨outer, origin, bindings⟩ := f
  simp only [names, binds, find?]
  induction bindings with
  | nil => simp
  | cons b bs ih =>
    by_cases h : name = b.1
    · simp [h]
    · have hne : (name == b.1) = false := by simpa using h
      rw [List.map_cons, List.mem_cons, List.lookup_cons, hne, ih]
      simp [h]

theorem binds_define : (f.define name value).binds other = true ↔
    f.binds other = true ∨ other = name := by
  rw [← mem_names_iff, ← mem_names_iff, names_define, List.mem_append, List.mem_singleton]

theorem binds_update : (f.update name value).binds other = true ↔ f.binds other = true := by
  rw [← mem_names_iff, ← mem_names_iff, names_update]

/-- The values of a frame are in its bindings. -/
theorem mem_of_find? (h : f.find? name = some value) : (name, value) ∈ f.bindings := by
  obtain ⟨outer, origin, bindings⟩ := f
  simp only [find?] at h
  induction bindings with
  | nil => cases h
  | cons b bs ih =>
    rw [List.lookup_cons] at h
    split at h
    · rename_i heq
      have hname : name = b.1 := by simpa using heq
      obtain rfl := Option.some.inj h
      rw [hname]
      exact List.mem_cons_self
    · exact List.mem_cons_of_mem _ (ih h)

end Frame

namespace Store
variable {s : Store} {id other : FrameId} {name : String} {f : Frame}

theorem lt_next (h : s.frames[id]? = some f) : id < s.next :=
  (Array.getElem?_eq_some_iff.mp h).1

theorem exists_frame (h : id < s.next) : ∃ f, s.frames[id]? = some f :=
  ⟨_, Array.getElem?_eq_getElem h⟩

theorem frame_push_of_lt (h : id < s.next) (outer : List FrameId) (origin : Option Site) :
    (s.push outer origin).frames[id]? = s.frames[id]? :=
  (Array.getElem?_push_lt h).trans (Array.getElem?_eq_getElem h).symm

theorem frame_push_next (s : Store) (outer : List FrameId) (origin : Option Site) :
    (s.push outer origin).frames[s.next]? = some ⟨outer, origin, []⟩ :=
  Array.getElem?_push_size

theorem frame_define (s : Store) (id other : FrameId) (name : String) (value : Value) :
    (s.define id name value).frames[other]? =
      if id = other then s.frames[other]?.map (·.define name value) else s.frames[other]? := by
  simp only [define, Array.getElem?_modify]

theorem frame_write (s : Store) (id other : FrameId) (name : String) (value : Value) :
    (s.write id name value).frames[other]? =
      if id = other then s.frames[other]?.map (·.update name value) else s.frames[other]? := by
  simp only [write, Array.getElem?_modify]

theorem binds_iff : s.binds id name = true ↔
    ∃ f, s.frames[id]? = some f ∧ f.binds name = true := by
  cases h : s.frames[id]? <;> simp [binds, read?, h, Frame.binds]

theorem binds_push (outer : List FrameId) (origin : Option Site) :
    (s.push outer origin).binds id name = true ↔ s.binds id name = true := by
  rw [binds_iff, binds_iff]
  by_cases hlt : id < s.next
  · rw [frame_push_of_lt hlt]
  · constructor
    · rintro ⟨f, hf, hb⟩
      have hid : id = s.next := by
        have hle : id < s.next + 1 := by simpa using lt_next hf
        exact Nat.le_antisymm (Nat.lt_succ_iff.mp hle) (Nat.not_lt.mp hlt)
      rw [hid, frame_push_next] at hf
      cases hf
      cases hb
    · rintro ⟨f, hf, -⟩
      exact absurd (lt_next hf) hlt

theorem binds_define (h : id < s.next) (value : Value) (key : String) :
    (s.define id name value).binds other key = true ↔
      s.binds other key = true ∨ (other = id ∧ key = name) := by
  rw [binds_iff, binds_iff, frame_define]
  obtain ⟨f, hf⟩ := exists_frame h
  by_cases hid : id = other
  · subst hid
    simp [hf, Frame.binds_define]
  · simp [hid, Ne.symm hid]

theorem binds_write (value : Value) (key : String) :
    (s.write id name value).binds other key = true ↔ s.binds other key = true := by
  rw [binds_iff, binds_iff, frame_write]
  by_cases hid : id = other
  · subst hid
    cases hf : s.frames[id]? <;> simp [Frame.binds_update]
  · simp [hid]

end Store

/-- What is done to a store while programs are executed. -/
inductive Deed where
  /-- A block is entered or a function is called: there is a new frame. -/
  | enter (outer : List FrameId) (origin : Option Site)
  /-- A declaration is executed in a frame. -/
  | declare (frame : FrameId) (name : String) (value : Value)
  /-- A variable of a frame is assigned to. -/
  | assign (frame : FrameId) (name : String) (value : Value)

/-- The deeds that have made a store from nothing, the first one first. -/
inductive Store.History : List Deed → Store → Prop where
  | nothing : History [] .empty
  | enter {deeds : List Deed} {s : Store} (h : History deeds s) (outer : List FrameId)
      (origin : Option Site) : History (deeds ++ [.enter outer origin]) (s.push outer origin)
  | declare {deeds : List Deed} {s : Store} (h : History deeds s) {id : FrameId}
      (hid : id < s.next) (name : String) (value : Value) :
      History (deeds ++ [.declare id name value]) (s.define id name value)
  | assign {deeds : List Deed} {s : Store} (h : History deeds s) (id : FrameId) (name : String)
      (value : Value) : History (deeds ++ [.assign id name value]) (s.write id name value)

/-- A frame binds the names whose declarations have been executed in it. -/
theorem Store.History.binds_iff {deeds : List Deed} {s : Store} (h : History deeds s)
    {id : FrameId} {name : String} :
    s.binds id name = true ↔ ∃ value, .declare id name value ∈ deeds := by
  induction h with
  | nothing => simp [binds, read?, empty]
  | enter h outer origin ih => simp [binds_push, ih]
  | declare h hid key value ih =>
    rw [binds_define hid, ih]
    simp only [List.mem_append, List.mem_singleton, Deed.declare.injEq]
    constructor
    · rintro (⟨v, hv⟩ | ⟨rfl, rfl⟩)
      · exact ⟨v, .inl hv⟩
      · exact ⟨value, .inr ⟨rfl, rfl, rfl⟩⟩
    · rintro ⟨v, hv | ⟨rfl, rfl, -⟩⟩
      · exact .inl ⟨v, hv⟩
      · exact .inr ⟨rfl, rfl⟩
  | assign h owner key value ih => simp [binds_write, ih]

end Lox
