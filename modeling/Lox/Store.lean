import Lox.Value

/-!
# Frames and their variables

Every execution of a block and every call makes a frame, which binds names to values. A frame knows
the frames around it, nearest first; closures share them. Frames and bindings are only ever added,
and the bindings of a frame keep the order in which they were made.
-/
namespace Lox

/-- The variables of one execution of a block or function, and the frames around them. -/
structure Frame where
  /-- The enclosing frames, nearest first. -/
  outer : List FrameId
  /-- The block or function that is executed; absent for an outermost frame. -/
  origin : Option Site
  bindings : List (String × Value)

namespace Frame

/-- The value that the frame binds to `name`. -/
def find? (f : Frame) (name : String) : Option Value :=
  f.bindings.lookup name

/-- Whether the frame binds `name`. -/
def binds (f : Frame) (name : String) : Bool :=
  (f.find? name).isSome

/-- The bound names, in the order in which they were defined. -/
def names (f : Frame) : List String :=
  f.bindings.map Prod.fst

/-- The frame with one binding more, behind the others. -/
def define (f : Frame) (name : String) (value : Value) : Frame :=
  { f with bindings := f.bindings ++ [(name, value)] }

/-- The frame with another value bound to `name`, in its old place. -/
def update (f : Frame) (name : String) (value : Value) : Frame :=
  { f with bindings := f.bindings.map fun b => if b.1 = name then (name, value) else b }

@[simp] theorem outer_define (f : Frame) (name : String) (value : Value) :
    (f.define name value).outer = f.outer := rfl

@[simp] theorem outer_update (f : Frame) (name : String) (value : Value) :
    (f.update name value).outer = f.outer := rfl

@[simp] theorem names_define (f : Frame) (name : String) (value : Value) :
    (f.define name value).names = f.names ++ [name] := by
  simp [names, define]

@[simp] theorem names_update (f : Frame) (name : String) (value : Value) :
    (f.update name value).names = f.names := by
  simp only [names, update, List.map_map]
  refine List.map_congr_left fun b _ => ?_
  by_cases h : b.1 = name <;> simp [h]

end Frame

/-- All frames that have been made, by their numbers. -/
structure Store where
  frames : Array Frame

namespace Store

/-- No frames. -/
def empty : Store := ⟨#[]⟩

/-- The number of the frame that is made next. -/
def next (s : Store) : FrameId := s.frames.size

/-- A frame and those around it, nearest first. -/
def chain (s : Store) (id : FrameId) : List FrameId :=
  match s.frames[id]? with
  | none => []
  | some frame => id :: frame.outer

/-- The store with a new frame, whose number is `next`. -/
def push (s : Store) (outer : List FrameId) (origin : Option Site) : Store :=
  ⟨s.frames.push ⟨outer, origin, []⟩⟩

/-- The value that one frame binds to `name`, whatever the frames around it bind. -/
def read? (s : Store) (id : FrameId) (name : String) : Option Value :=
  s.frames[id]?.bind (·.find? name)

/-- Whether one frame binds `name`. -/
def binds (s : Store) (id : FrameId) (name : String) : Bool :=
  (s.read? id name).isSome

/-- The store with a new binding in one frame. -/
def define (s : Store) (id : FrameId) (name : String) (value : Value) : Store :=
  ⟨s.frames.modify id (·.define name value)⟩

/-- The store with another value bound to a name in one frame. -/
def write (s : Store) (id : FrameId) (name : String) (value : Value) : Store :=
  ⟨s.frames.modify id (·.update name value)⟩

/-- The frame `distance` steps out, if the chain goes so far. -/
def ancestor? (s : Store) (id : FrameId) (distance : Nat) : Option FrameId :=
  (s.chain id)[distance]?

/-- The innermost frame of a chain that binds `name`. -/
def owner? (s : Store) (id : FrameId) (name : String) : Option FrameId :=
  (s.chain id).find? (s.binds · name)

/-- The names that one frame binds, in the order in which they were defined. -/
def names (s : Store) (id : FrameId) : List String :=
  (s.frames[id]?.map (·.names)).getD []

/-- The bindings of one frame, in the order in which they were made. -/
def bindings (s : Store) (id : FrameId) : List (String × Value) :=
  (s.frames[id]?.map (·.bindings)).getD []

/-- The names of a frame and of those around it, in brackets each. -/
def describe (s : Store) (id : FrameId) : String :=
  " < ".intercalate ((s.chain id).map fun id => "[" ++ ", ".intercalate (s.names id) ++ "]")

@[simp] theorem next_push (s : Store) (outer : List FrameId) (origin : Option Site) :
    (s.push outer origin).next = s.next + 1 := by
  simp [next, push]

@[simp] theorem next_define (s : Store) (id : FrameId) (name : String) (value : Value) :
    (s.define id name value).next = s.next := by
  simp [next, define]

@[simp] theorem next_write (s : Store) (id : FrameId) (name : String) (value : Value) :
    (s.write id name value).next = s.next := by
  simp [next, write]

@[simp] theorem chain_define (s : Store) (id other : FrameId) (name : String) (value : Value) :
    (s.define id name value).chain other = s.chain other := by
  simp only [chain, define, Array.getElem?_modify]
  by_cases h : id = other
  · subst h; cases s.frames[id]? <;> simp
  · simp [h]

@[simp] theorem chain_write (s : Store) (id other : FrameId) (name : String) (value : Value) :
    (s.write id name value).chain other = s.chain other := by
  simp only [chain, write, Array.getElem?_modify]
  by_cases h : id = other
  · subst h; cases s.frames[id]? <;> simp
  · simp [h]

end Store

end Lox
