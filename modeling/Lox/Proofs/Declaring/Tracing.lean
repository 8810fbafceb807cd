import Lox.Proofs.Declaring.Trails
import Lox.Proofs.Scoping.Restoring
import Lox.Proofs.Session.Soundness

/-!
# Tracing runs

A run is traced while it goes on: for every frame it is noted which declarations are tried in it and
which loops go round, those of the functions included that are called meanwhile. Tracing does not
change a run. What is noted of one frame is the trail of one activation, and a declaration fails only
in a frame in which the name has been declared before.
-/
namespace Lox
open Outcome

/-- What has been noted: acts, each with the frame that it belongs to. -/
abbrev Entries := List (FrameId × Act)

/-- The acts that belong to one frame. -/
def Entries.of (entries : Entries) (frame : FrameId) : List Act :=
  entries.filterMap fun entry => if entry.1 = frame then some entry.2 else none

/-- The names that are bound. -/
def Act.bound (acts : List Act) : List String :=
  acts.filterMap fun
    | .declares _ name => some name
    | .collides _ _ | .round _ => none

/-- A machine and what has been noted. -/
structure Diary where
  machine : Machine
  entries : Entries

/-- A result of a run, with what has been noted. -/
def Diary.result {α : Type} (entries : Entries) :
    EStateM.Result Stop Machine α → EStateM.Result Stop Diary α
  | .ok a m => .ok a ⟨m, entries⟩
  | .error stop m => .error stop ⟨m, entries⟩

theorem Diary.entries_result {α : Type} (entries : Entries) (r : EStateM.Result Stop Machine α) :
    (final (result entries r)).entries = entries := by
  cases r <;> rfl

/-- A run that is traced. -/
abbrev Trace := EStateM Stop Diary

namespace Trace

/-- Notes an act. -/
def note (frame : FrameId) (act : Act) : Trace Unit :=
  modify fun diary => { diary with entries := diary.entries ++ [(frame, act)] }

/-- A run of which nothing is noted. -/
def plain {α : Type} (x : Run α) : Trace α := fun diary =>
  Diary.result diary.entries (x diary.machine)

/-- Binds a name in a frame, and notes whether it can be bound. -/
def define (frame : FrameId) (declarer : Declarer) (name : String) (value : Value)
    (line : Option Int) : Trace Unit := do
  let store := (← get).machine.store
  note frame (if store.binds frame name then .collides declarer name else .declares declarer name)
  plain (Run.define frame name value line)

/-- Traces something with another current frame. -/
def within {α : Type} (frame : FrameId) (body : Trace α) : Trace α := fun diary =>
  let previous := diary.machine.current
  match body { diary with machine := { diary.machine with current := frame } } with
  | .ok a diary => .ok a { diary with machine := { diary.machine with current := previous } }
  | .error stop diary =>
    .error stop { diary with machine := { diary.machine with current := previous } }

/-- Traces the statements of a body, the first of which has that number in it. -/
def sequence (execute : Route → Stmt Site → Trace Completion) :
    Nat → List (Stmt Site) → Trace Completion
  | _, [] => return none
  | index, s :: rest => do
    match ← execute [.item index] s with
    | none => sequence execute (index + 1) rest
    | some returned => return some returned

/-- Traces a loop. -/
def loop (route : Route) (condition : Trace Bool) (body : Trace Completion) : Nat → Trace Completion
  | 0 => throw .unfinished
  | rounds + 1 => do
    if ← condition then
      note (← get).machine.current (.round route)
      match ← body with
      | none => loop route condition body rounds
      | some returned => return some returned
    else return none

/-- Traces how parameters are bound, the first of which has that number. -/
def bindParameters (frame : FrameId) : Nat → List Token → List Value → Trace Unit
  | index, param :: params, argument :: arguments => do
    define frame (.parameter index) param.lexeme argument param.line
    bindParameters frame (index + 1) params arguments
  | _, _, _ => return

/-- Traces a call. -/
def call (execute : Route → Stmt Site → Trace Completion) (line : Int) (callee : Value)
    (arguments : List Value) : Trace Value := do
  match callee.arity? with
  | none => plain (Run.fail .notCallable line)
  | some arity =>
    if arguments.length = arity then
      match callee with
      | .closure function =>
        let frame ← plain (Run.enter function.frame function.site)
        bindParameters frame 0 function.params arguments
        let completion ← within frame (sequence execute 0 function.body)
        return (completion.map (·.value)).getD .nil
      | _ => plain Run.readClock
    else plain (Run.fail (.wrongArity arity arguments.length) line)

mutual

/-- Traces the evaluation of an expression. -/
def evaluate (rounds : Nat) : Nat → Expr Site → Trace Value
  | 0, _ => plain (Run.fail .tooDeep none)
  | depth + 1, e =>
    match e with
    | .literal value => return .atom value
    | .grouping inner => evaluate rounds depth inner
    | .unary operator operand => do
      let operand ← evaluate rounds depth operand
      plain (Run.unary operator operand)
    | .binary left operator right => do
      let left ← evaluate rounds depth left
      let right ← evaluate rounds depth right
      plain (Run.binary operator left right)
    | .logical left operator right => do
      let left ← evaluate rounds depth left
      if Run.decides operator left then return left else evaluate rounds depth right
    | .variable site name => plain (Run.read site name)
    | .assignment site name value => do
      let value ← evaluate rounds depth value
      plain (Run.write site name value)
    | .call callee paren arguments => do
      let callee ← evaluate rounds depth callee
      let arguments ← arguments.mapM (evaluate rounds depth)
      call (execute rounds depth) paren.line callee arguments
    | .foreign what => plain (Run.fault (.unknownExpression what))

/-- Traces the execution of the statement at the end of some way. -/
def execute (rounds : Nat) : Nat → Route → Stmt Site → Trace Completion
  | 0, _, _ => plain (Run.fail .tooDeep none)
  | depth + 1, route, s =>
    match s with
    | .expression value => do
      let _ ← evaluate rounds depth value
      return none
    | .print value => do
      let value ← evaluate rounds depth value
      plain (Run.print value.shown)
      return none
    | .assert keyword condition => do
      if (← evaluate rounds depth condition).isTruthy then return none
      else plain (Run.fail .assertionFailed keyword.line)
    | .variable name initializer => do
      let value ← match initializer with
        | none => pure .nil
        | some initializer => evaluate rounds depth initializer
      define (← get).machine.current (.statement route) name.lexeme value name.line
      return none
    | .block site body => do
      let frame ← plain (Run.enter (← get).machine.current site)
      within frame (sequence (execute rounds depth) 0 body)
    | .conditional condition yes no => do
      if (← evaluate rounds depth condition).isTruthy then
        execute rounds depth (.yes :: route) yes
      else match no with
        | none => return none
        | some no => execute rounds depth (.no :: route) no
    | .loop condition body =>
      loop route ((·.isTruthy) <$> evaluate rounds depth condition)
        (execute rounds depth (.body :: route) body) rounds
    | .function site name params body => do
      let frame := (← get).machine.current
      define frame (.statement route) name.lexeme
        (.closure ⟨site, name, params, body, frame⟩) name.line
      return none
    | .return keyword value => do
      let value ← match value with
        | none => pure .nil
        | some value => evaluate rounds depth value
      return some ⟨value, keyword.line⟩
    | .endMarker => do
      plain (modify fun m => { m with done := true })
      return none
    | .foreign what => plain (Run.fault (.unknownStatement what))

end

/-- Traces the execution of a statement that stands by itself. -/
def interpret (rounds depth : Nat) (s : Stmt Site) : Trace Value :=
  match s with
  | .expression value => evaluate rounds depth value
  | s => do
    match ← execute rounds depth [] s with
    | none => return .nil
    | some returned => plain (Run.fail .topLevelReturn returned.line)

end Trace

/-- Stores with the same frames that bind the same names. -/
structure Store.SameNames (s s' : Store) : Prop where
  next : s'.next = s.next
  names : ∀ frame, s'.names frame = s.names frame

/-- The run stops because a name is bound already. -/
def Redeclares {α : Type} (name : String) (r : EStateM.Result Stop Machine α) : Prop :=
  ∃ line m, r = .error (.error ⟨.alreadyDeclared name, line⟩) m

section Redeclares
variable {α β : Type} {name : String} {stop : Stop} {m m' : Machine}

theorem not_redeclares_ok (name : String) (a : α) (m : Machine) : ¬Redeclares name (.ok a m) := by
  rintro ⟨line, m', h⟩
  cases h

theorem redeclares_error_iff : Redeclares name (.error stop m : EStateM.Result Stop Machine α) ↔
    ∃ line, stop = .error ⟨.alreadyDeclared name, line⟩ := by
  constructor
  · rintro ⟨line, m', h⟩
    cases h
    exact ⟨line, rfl⟩
  · rintro ⟨line, rfl⟩
    exact ⟨line, m, rfl⟩

/-- What stops a run also stops what it is part of. -/
theorem Redeclares.passed (h : Redeclares name (.error stop m : EStateM.Result Stop Machine α)) :
    Redeclares name (.error stop m' : EStateM.Result Stop Machine β) :=
  redeclares_error_iff.mpr (redeclares_error_iff.mp h)

end Redeclares

/-- A run that makes no frames and binds no names, and does not try to. -/
def Quiet {α : Type} (x : Run α) : Prop :=
  ∀ m, m.store.SameNames (final (x m)).store ∧ ∀ name, ¬Redeclares name (x m)

namespace Quiet
variable {α β : Type} {x : Run α} {f : α → Run β}

theorem of_store_eq (h : ∀ m, ∃ a m', x m = .ok a m' ∧ m'.store = m.store) : Quiet x := by
  intro m
  obtain ⟨a, m', heq, hstore⟩ := h m
  rw [heq]
  exact ⟨⟨by rw [final, hstore], fun _ => by rw [final, hstore]⟩,
    fun name => not_redeclares_ok name a m'⟩

theorem pure (a : α) : Quiet (Pure.pure a : Run α) :=
  of_store_eq fun m => ⟨a, m, rfl, rfl⟩

theorem throw {stop : Stop} (hstop : ∀ name line, stop ≠ .error ⟨.alreadyDeclared name, line⟩) :
    Quiet (MonadExcept.throw stop : Run α) := by
  refine fun m => ⟨⟨rfl, fun _ => rfl⟩, fun name h => ?_⟩
  obtain ⟨line, hline⟩ := redeclares_error_iff.mp h
  exact hstop name line hline

theorem fault (f : Fault) : Quiet (Run.fault f : Run α) :=
  throw fun _ _ h => by cases h

theorem fail {cause : RuntimeError.Cause} (hcause : ∀ name, cause ≠ .alreadyDeclared name)
    (line : Option Int) : Quiet (Run.fail cause line : Run α) :=
  throw fun name _ h => by cases h; exact hcause name rfl

theorem bind (hx : Quiet x) (hf : ∀ a, Quiet (f a)) : Quiet (x >>= f) := by
  intro m
  obtain ⟨hsame, hredeclares⟩ := hx m
  rw [bind_apply]
  cases hrun : x m with
  | error stop t =>
    rw [hrun] at hsame hredeclares
    exact ⟨hsame, fun name h => hredeclares name h.passed⟩
  | ok a t =>
    rw [hrun] at hsame
    obtain ⟨hsame', hredeclares'⟩ := hf a t
    exact ⟨⟨hsame'.next.trans hsame.next, fun g => (hsame'.names g).trans (hsame.names g)⟩, hredeclares'⟩

theorem get_bind {f : Machine → Run β} (hf : ∀ m, Quiet (f m)) : Quiet (get >>= f) :=
  fun m => hf m m

theorem unary (operator : Token) (operand : Value) : Quiet (Run.unary operator operand) := by
  unfold Run.unary
  split
  · exact pure _
  · exact pure _
  · exact fail (fun _ h => by cases h) _

theorem add (line : Int) (left right : Value) : Quiet (Run.add line left right) := by
  unfold Run.add
  split
  · exact pure _
  · exact fail (fun _ h => by cases h) _
  · exact pure _
  · exact fail (fun _ h => by cases h) _
  · exact fail (fun _ h => by cases h) _

theorem calculate (operator : Token) (left right : Value) :
    Quiet (Run.calculate operator left right) := by
  unfold Run.calculate
  split
  · split
    · exact fault _
    · exact pure _
  · exact fail (fun _ h => by cases h) _
  · exact fail (fun _ h => by cases h) _

theorem binary (operator : Token) (left right : Value) : Quiet (Run.binary operator left right) := by
  unfold Run.binary
  split
  · exact pure _
  · exact pure _
  · exact add _ _ _
  · exact calculate _ _ _

theorem readIn (id : FrameId) (name : String) (line : Option Int) :
    Quiet (Run.readIn id name line) := by
  refine get_bind fun m => ?_
  cases m.store.read? id name with
  | none => exact fail (fun _ h => by cases h) _
  | some value => exact pure value

theorem writeIn (id : FrameId) (name : String) (value : Value) (line : Option Int) :
    Quiet (Run.writeIn id name value line) := by
  intro m
  rw [Run.writeIn, get_bind_apply]
  split
  · exact ⟨⟨Store.next_write .., Store.names_write _ _ _ _⟩, fun name => not_redeclares_ok name _ _⟩
  · exact fail (fun _ h => by cases h) _ m

theorem ancestor (id : FrameId) (distance : Nat) : Quiet (Run.ancestor id distance) := by
  refine get_bind fun m => ?_
  cases m.store.ancestor? id distance with
  | none => exact fault _
  | some frame => exact pure frame

theorem read (site : Site) (name : Token) : Quiet (Run.read site name) := by
  refine get_bind fun m => ?_
  cases m.distances.find? site with
  | some distance => exact (ancestor _ _).bind fun frame => readIn frame _ _
  | none =>
    refine get_bind fun m => ?_
    cases m.store.owner? Machine.globals name.lexeme with
    | none => exact fail (fun _ h => by cases h) _
    | some owner => exact readIn owner _ _

theorem write (site : Site) (name : Token) (value : Value) : Quiet (Run.write site name value) := by
  refine get_bind fun m => ?_
  cases m.distances.find? site with
  | some distance =>
    exact get_bind fun m => (ancestor m.current distance).bind fun frame => writeIn frame _ _ _
  | none =>
    refine get_bind fun m => ?_
    cases m.store.owner? Machine.globals name.lexeme with
    | none => exact fail (fun _ h => by cases h) _
    | some owner => exact writeIn owner _ _ _

theorem readClock : Quiet Run.readClock :=
  of_store_eq fun _ => ⟨_, _, rfl, rfl⟩

theorem print (line : String) : Quiet (Run.print line) :=
  of_store_eq fun _ => ⟨_, _, rfl, rfl⟩

end Quiet

end Lox
