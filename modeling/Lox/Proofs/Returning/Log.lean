import Lox.Machine.Evaluation
import Lox.Proofs.Outcome

/-!
# What an activation does

An activation executes statements one after the other, and those inside their blocks, conditionals
and loops. Here it is watched while it does so: it is noted which statements are begun, which
conditions are tested and which returns are executed, in their order. The functions that are called
meanwhile have activations of their own, of which nothing is noted. Watching does not change a run.
An activation that returns does so with the only return that it executes, and does nothing else then;
and an activation that executes no return goes through all its statements.
-/
namespace Lox
open Outcome

/-- The parts of a statement that belong to the same activation: they stand inside of blocks,
conditionals and loops, but not inside of functions. -/
inductive Stmt.Part {σ : Type} : Stmt σ → Stmt σ → Prop where
  | self (s : Stmt σ) : Part s s
  | block {t s : Stmt σ} {site : σ} {body : List (Stmt σ)} (hs : s ∈ body) (h : Part t s) :
    Part t (.block site body)
  | yes {t yes : Stmt σ} {condition : Expr σ} {no : Option (Stmt σ)} (h : Part t yes) :
    Part t (.conditional condition yes no)
  | no {t yes no : Stmt σ} {condition : Expr σ} (h : Part t no) :
    Part t (.conditional condition yes (some no))
  | loop {t body : Stmt σ} {condition : Expr σ} (h : Part t body) : Part t (.loop condition body)

theorem Stmt.Part.trans {σ : Type} {u t s : Stmt σ} (h : t.Part s) (h' : u.Part t) : u.Part s := by
  induction h with
  | self => exact h'
  | block hs _ ih => exact .block hs ih
  | yes _ ih => exact .yes ih
  | no _ ih => exact .no ih
  | loop _ ih => exact .loop ih

/-- What is noted of an activation. -/
inductive Event where
  /-- A statement is begun. -/
  | begins (s : Stmt Site)
  /-- The condition of a conditional or of a loop is evaluated. -/
  | tests (condition : Expr Site)
  /-- A return has been executed. Its value has been found, and the machine was left like this. -/
  | returns (keyword : Token) (operand : Option (Expr Site)) (value : Value) (left : Machine)

namespace Event

def IsReturn : Event → Prop
  | .returns .. => True
  | .begins _ | .tests _ => False

/-- The event belongs to an activation that executes a statement. -/
def In (s : Stmt Site) : Event → Prop
  | .begins t => t.Part s
  | .tests condition =>
    (∃ yes no, (Stmt.conditional condition yes no).Part s) ∨ ∃ body, (Stmt.loop condition body).Part s
  | .returns keyword operand _ _ => (Stmt.return keyword operand).Part s

theorem In.of_part {s t : Stmt Site} (h : t.Part s) : ∀ {e : Event}, e.In t → e.In s
  | .begins _, hin => h.trans hin
  | .tests _, hin => hin.imp (fun ⟨yes, no, hpart⟩ => ⟨yes, no, h.trans hpart⟩)
    fun ⟨body, hpart⟩ => ⟨body, h.trans hpart⟩
  | .returns .., hin => h.trans hin

end Event

/-- A machine and what has been noted of the activation. -/
structure Log where
  machine : Machine
  events : List Event

/-- A run that is watched. -/
abbrev Watch := EStateM Stop Log

namespace Watch

/-- Notes an event. -/
def note (e : Event) : Watch Unit :=
  modify fun log => { log with events := log.events ++ [e] }

/-- A run of which nothing is noted. -/
def unseen {α : Type} (x : Run α) : Watch α := fun log =>
  match x log.machine with
  | .ok a m => .ok a { log with machine := m }
  | .error stop m => .error stop { log with machine := m }

/-- Watches something with another current frame. -/
def within {α : Type} (frame : FrameId) (body : Watch α) : Watch α := fun log =>
  let previous := log.machine.current
  match body { log with machine := { log.machine with current := frame } } with
  | .ok a log => .ok a { log with machine := { log.machine with current := previous } }
  | .error stop log => .error stop { log with machine := { log.machine with current := previous } }

/-- Watches statements until one of them returns. -/
def sequence (execute : Stmt Site → Watch Completion) : List (Stmt Site) → Watch Completion
  | [] => return none
  | s :: rest => do
    match ← execute s with
    | none => sequence execute rest
    | some returned => return some returned

/-- Watches a loop. -/
def loop (condition : Watch Bool) (body : Watch Completion) : Nat → Watch Completion
  | 0 => throw .unfinished
  | rounds + 1 => do
    if ← condition then
      match ← body with
      | none => loop condition body rounds
      | some returned => return some returned
    else return none

/-- Watches a statement. -/
def execute (rounds : Nat) : Nat → Stmt Site → Watch Completion
  | 0, s => do
    note (.begins s)
    unseen (Access.byDistance.execute rounds 0 s)
  | depth + 1, s => do
    note (.begins s)
    match s with
    | .block site body => do
      let frame ← unseen (do Run.enter (← get).current site)
      within frame (sequence (execute rounds depth) body)
    | .conditional condition yes no => do
      note (.tests condition)
      if (← unseen (Access.byDistance.evaluate rounds depth condition)).isTruthy then
        execute rounds depth yes
      else match no with
        | none => return none
        | some no => execute rounds depth no
    | .loop condition body =>
      loop
        (do note (.tests condition)
            unseen ((·.isTruthy) <$> Access.byDistance.evaluate rounds depth condition))
        (execute rounds depth body) rounds
    | .return keyword operand => do
      let value ← match operand with
        | none => pure .nil
        | some operand => unseen (Access.byDistance.evaluate rounds depth operand)
      note (.returns keyword operand value (← get).machine)
      return some ⟨value, keyword.line⟩
    | s => unseen (Access.byDistance.execute rounds (depth + 1) s)

end Watch

/-- A result of a run, with what has been noted of it. -/
def stamp {α : Type} (events : List Event) :
    EStateM.Result Stop Machine α → EStateM.Result Stop Log α
  | .ok a m => .ok a ⟨m, events⟩
  | .error stop m => .error stop ⟨m, events⟩

/-- Events of an activation, no return among them. -/
def Silent (own : Event → Prop) (events : List Event) : Prop :=
  ∀ e ∈ events, own e ∧ ¬e.IsReturn

/-- The value that a return hands on, when the machine has been left like this: that of its operand,
or nil. -/
def Handed (rounds : Nat) (operand : Option (Expr Site)) (value : Value) (left : Machine) : Prop :=
  match operand with
  | none => value = .nil
  | some operand => ∃ depth before, Run.evaluate rounds depth operand before = .ok value left

/-- What the events of an activation tell of its end. It has come to its own end or has stopped without
executing a return, or it ends with the only return that it has executed: with its value and its line,
and apart from the current frame with the machine that it has left. -/
inductive Accounts (rounds : Nat) (own : Event → Prop) :
    List Event → EStateM.Result Stop Machine Completion → Prop where
  | through {events : List Event} {m : Machine} (h : Silent own events) :
    Accounts rounds own events (.ok none m)
  | stopped {events : List Event} {stop : Stop} {m : Machine} (h : Silent own events) :
    Accounts rounds own events (.error stop m)
  | returned {front : List Event} {keyword : Token} {operand : Option (Expr Site)} {value : Value}
    {left m : Machine} (h : Silent own front) (hown : own (.returns keyword operand value left))
    (hleft : { m with current := left.current } = left) (hvalue : Handed rounds operand value left) :
    Accounts rounds own (front ++ [.returns keyword operand value left])
      (.ok (some ⟨value, keyword.line⟩) m)

section Silence
variable {own own' : Event → Prop} {events more : List Event}

theorem Silent.append (h : Silent own events) (h' : Silent own more) : Silent own (events ++ more) :=
  fun e he => (List.mem_append.mp he).elim (h e) (h' e)

theorem Silent.mono (h : Silent own events) (hown : ∀ e, own e → own' e) : Silent own' events :=
  fun e he => ⟨hown e (h e he).1, (h e he).2⟩

theorem Silent.singleton {e : Event} (he : own e) (hreturn : ¬e.IsReturn) : Silent own [e] :=
  fun e' he' => by rw [List.mem_singleton.mp he']; exact ⟨he, hreturn⟩

namespace Accounts
variable {rounds : Nat} {r : EStateM.Result Stop Machine Completion}

theorem behind (h : Silent own events) (hr : Accounts rounds own more r) :
    Accounts rounds own (events ++ more) r := by
  cases hr with
  | through h' => exact .through (h.append h')
  | stopped h' => exact .stopped (h.append h')
  | returned h' hown hleft hvalue =>
    rw [← List.append_assoc]
    exact .returned (h.append h') hown hleft hvalue

theorem mono (h : Accounts rounds own events r) (hown : ∀ e, own e → own' e) :
    Accounts rounds own' events r := by
  cases h with
  | through h => exact .through (h.mono hown)
  | stopped h => exact .stopped (h.mono hown)
  | returned h h' hleft hvalue => exact .returned (h.mono hown) (hown _ h') hleft hvalue

end Accounts

end Silence

/-- Watching a run does not change it, and the events that are noted tell something of the result. -/
def Watches {α : Type} (tells : List Event → EStateM.Result Stop Machine α → Prop) (x : Run α)
    (w : Watch α) : Prop :=
  ∀ m before, ∃ events, w ⟨m, before⟩ = stamp (before ++ events) (x m) ∧ tells events (x m)

/-- A run that never ends with a return. -/
def NeverReturns (x : Run Completion) : Prop :=
  ∀ m completion m', x m = .ok completion m' → completion = none

namespace NeverReturns
variable {α : Type} {x : Run α} {f : α → Run Completion}

theorem pure : NeverReturns (pure none) := fun _ _ _ h => by cases h; rfl

theorem throw (stop : Stop) : NeverReturns (throw stop) := fun _ _ _ h => by cases h

theorem bind (hf : ∀ a, NeverReturns (f a)) : NeverReturns (x >>= f) := by
  intro m completion m' h
  obtain ⟨a, t, -, hrest⟩ := bind_eq_ok.mp h
  exact hf a t completion m' hrest

end NeverReturns

namespace Watches
variable {own own' : Event → Prop} {rounds : Nat}

/-- A run of which nothing is noted. -/
theorem silent {α : Type} (x : Run α) :
    Watches (fun events _ => Silent own events) x (Watch.unseen x) := by
  refine fun m before => ⟨[], ?_, fun e he => by cases he⟩
  rw [List.append_nil]
  simp only [Watch.unseen]
  cases x m <;> rfl

/-- A run of which nothing is noted, as it never returns. -/
theorem unseen {x : Run Completion} (hx : NeverReturns x) :
    Watches (Accounts rounds own) x (Watch.unseen x) := by
  intro m before
  obtain ⟨events, heq, hsilent⟩ := silent x m before
  refine ⟨events, heq, ?_⟩
  cases hrun : x m with
  | ok completion m' =>
    rw [hx m completion m' hrun]
    exact .through hsilent
  | error stop m' => exact .stopped hsilent

/-- A run before which an event is noted. -/
theorem noted {α : Type} (x : Run α) {e : Event} (he : own e) (hreturn : ¬e.IsReturn) :
    Watches (fun events _ => Silent own events) x (do Watch.note e; Watch.unseen x) := by
  intro m before
  refine ⟨[e], ?_, .singleton he hreturn⟩
  have hnote : (do Watch.note e; Watch.unseen x : Watch α) ⟨m, before⟩ =
      Watch.unseen x ⟨m, before ++ [e]⟩ := rfl
  rw [hnote, Watch.unseen]
  cases x m <;> rfl

theorem mono {x : Run Completion} {w : Watch Completion} (h : Watches (Accounts rounds own) x w)
    (hown : ∀ e, own e → own' e) : Watches (Accounts rounds own') x w :=
  fun m before => (h m before).imp fun _ ⟨heq, haccounts⟩ => ⟨heq, haccounts.mono hown⟩

theorem pure : Watches (Accounts rounds own) (pure none) (pure none) :=
  fun m before => ⟨[], by rw [List.append_nil]; rfl, .through fun e he => by cases he⟩

/-- Something is noted, and then a run is watched. -/
theorem note {x : Run Completion} {w : Watch Completion} {e : Event} (he : own e)
    (hreturn : ¬e.IsReturn) (h : Watches (Accounts rounds own) x w) :
    Watches (Accounts rounds own) x (do Watch.note e; w) := by
  intro m before
  obtain ⟨events, heq, haccounts⟩ := h m (before ++ [e])
  refine ⟨[e] ++ events, ?_, haccounts.behind (.singleton he hreturn)⟩
  rw [← List.append_assoc, ← heq]
  rfl

/-- A run in which no return is executed is followed by others. -/
theorem bind {α : Type} {x : Run α} {w : Watch α} {f : α → Run Completion} {g : α → Watch Completion}
    (hx : Watches (fun events _ => Silent own events) x w)
    (hf : ∀ a, Watches (Accounts rounds own) (f a) (g a)) :
    Watches (Accounts rounds own) (x >>= f) (w >>= g) := by
  intro m before
  obtain ⟨events, heq, hsilent⟩ := hx m before
  rw [bind_apply, bind_apply, heq]
  cases x m with
  | error stop m' => exact ⟨events, rfl, .stopped hsilent⟩
  | ok a m' =>
    obtain ⟨more, heq', haccounts⟩ := hf a m' (before ++ events)
    refine ⟨events ++ more, ?_, haccounts.behind hsilent⟩
    rw [← List.append_assoc, ← heq']
    rfl

/-- A run that may return is followed by another one if it does not. -/
theorem followed {x y : Run Completion} {w v : Watch Completion} {f : Completion → Run Completion}
    {g : Completion → Watch Completion} (hx : Watches (Accounts rounds own) x w)
    (hy : Watches (Accounts rounds own) y v) (hf : f none = y) (hg : g none = v)
    (hf' : ∀ returned, f (some returned) = Pure.pure (some returned))
    (hg' : ∀ returned, g (some returned) = Pure.pure (some returned)) :
    Watches (Accounts rounds own) (x >>= f) (w >>= g) := by
  intro m before
  obtain ⟨events, heq, haccounts⟩ := hx m before
  rw [bind_apply, bind_apply, heq]
  generalize x m = r at haccounts
  cases haccounts with
  | stopped hsilent => exact ⟨events, rfl, .stopped hsilent⟩
  | @through _ m' hsilent =>
    obtain ⟨more, heq', haccounts'⟩ := hy m' (before ++ events)
    refine ⟨events ++ more, ?_, ?_⟩
    · show g none ⟨m', before ++ events⟩ = stamp (before ++ (events ++ more)) (f none m')
      rw [hf, hg, heq', List.append_assoc]
    · show Accounts rounds own (events ++ more) (f none m')
      rw [hf]
      exact haccounts'.behind hsilent
  | @returned front keyword operand value left m' hsilent hown hleft hvalue =>
    refine ⟨front ++ [.returns keyword operand value left], ?_, ?_⟩
    · show g (some ⟨value, keyword.line⟩) _ = stamp _ (f (some ⟨value, keyword.line⟩) m')
      rw [hf', hg']
      rfl
    · show Accounts rounds own _ (f (some ⟨value, keyword.line⟩) m')
      rw [hf']
      exact .returned hsilent hown hleft hvalue

theorem within (frame : FrameId) {x : Run Completion} {w : Watch Completion}
    (h : Watches (Accounts rounds own) x w) :
    Watches (Accounts rounds own) (Run.within frame x) (Watch.within frame w) := by
  intro m before
  obtain ⟨events, heq, haccounts⟩ := h { m with current := frame } before
  refine ⟨events, ?_, ?_⟩
  · simp only [Watch.within, Run.within, heq]
    cases x { m with current := frame } <;> rfl
  · simp only [Run.within]
    generalize x { m with current := frame } = r at haccounts
    cases haccounts with
    | through hsilent => exact .through hsilent
    | stopped hsilent => exact .stopped hsilent
    | returned hsilent hown hleft hvalue => exact .returned hsilent hown hleft hvalue

theorem sequence {run : Stmt Site → Run Completion} {watch : Stmt Site → Watch Completion}
    {ss : List (Stmt Site)} (h : ∀ s ∈ ss, Watches (Accounts rounds own) (run s) (watch s)) :
    Watches (Accounts rounds own) (Run.sequence run ss) (Watch.sequence watch ss) := by
  induction ss with
  | nil => exact pure
  | cons s ss ih =>
    exact followed (h s List.mem_cons_self) (ih fun t ht => h t (List.mem_cons_of_mem _ ht)) rfl rfl
      (fun _ => rfl) fun _ => rfl

theorem loop {condition : Run Bool} {watchCondition : Watch Bool} {body : Run Completion}
    {watchBody : Watch Completion}
    (hcondition : Watches (fun events _ => Silent own events) condition watchCondition)
    (hbody : Watches (Accounts rounds own) body watchBody) (count : Nat) :
    Watches (Accounts rounds own) (Run.loop condition body count)
      (Watch.loop watchCondition watchBody count) := by
  induction count with
  | zero =>
    exact fun m before => ⟨[], by rw [List.append_nil]; rfl, .stopped fun e he => by cases he⟩
  | succ count ih =>
    refine bind hcondition fun holds => ?_
    cases holds with
    | false => exact pure
    | true => exact followed hbody ih rfl rfl (fun _ => rfl) fun _ => rfl

/-- A return without an operand. -/
theorem returnsNil {keyword : Token} (hown : ∀ left, own (.returns keyword none .nil left)) :
    Watches (Accounts rounds own) (Pure.pure (some ⟨.nil, keyword.line⟩))
      (do Watch.note (.returns keyword none .nil (← get).machine)
          return some ⟨.nil, keyword.line⟩) := by
  refine fun m before => ⟨[] ++ [.returns keyword none .nil m], rfl, ?_⟩
  exact .returned (fun e he => by cases he) (hown m) rfl rfl

/-- A return with an operand, which is evaluated first. -/
theorem returns {keyword : Token} {operand : Expr Site} {depth : Nat}
    (hown : ∀ value left, own (.returns keyword (some operand) value left)) :
    Watches (Accounts rounds own)
      (do let value ← Access.byDistance.evaluate rounds depth operand
          return some ⟨value, keyword.line⟩)
      (do let value ← Watch.unseen (Access.byDistance.evaluate rounds depth operand)
          Watch.note (.returns keyword (some operand) value (← get).machine)
          return some ⟨value, keyword.line⟩) := by
  intro m before
  obtain ⟨events, heq, hsilent⟩ := silent (Access.byDistance.evaluate rounds depth operand) m before
  rw [bind_apply, bind_apply, heq]
  cases hrun : Access.byDistance.evaluate rounds depth operand m with
  | error stop m' => exact ⟨events, rfl, .stopped hsilent⟩
  | ok value m' =>
    refine ⟨events ++ [.returns keyword (some operand) value m'], ?_, ?_⟩
    · rw [← List.append_assoc]
      rfl
    · exact .returned hsilent (hown value m') rfl ⟨depth, m, hrun⟩

end Watches

namespace Watch

/-- Statements that are watched up to some depth. -/
theorem watches_execute_succ {rounds depth : Nat}
    (ih : ∀ s, Watches (Accounts rounds (Event.In s)) (Access.byDistance.execute rounds depth s)
      (execute rounds depth s)) (s : Stmt Site) :
    Watches (Accounts rounds (Event.In s)) (Access.byDistance.execute rounds (depth + 1) s)
      (execute rounds (depth + 1) s) := by
  have hinside : ∀ {t : Stmt Site}, t.Part s → Watches (Accounts rounds (Event.In s))
      (Access.byDistance.execute rounds depth t) (execute rounds depth t) :=
    fun {t} hpart => (ih t).mono fun _ => Event.In.of_part hpart
  have hbegins : Event.In s (.begins s) := .self s
  cases s with
  | expression value => exact .note hbegins id (.unseen (.bind fun _ => .pure))
  | print value => exact .note hbegins id (.unseen (.bind fun _ => .bind fun _ => .pure))
  | assert keyword condition =>
    refine .note hbegins id (.unseen (.bind fun value => ?_))
    by_cases htruthy : value.isTruthy = true
    · simp only [htruthy, if_true]
      exact .pure
    · simp only [htruthy]
      exact .throw _
  | «variable» name initializer =>
    have hdefine : ∀ value : Value, NeverReturns
        (do Run.define (← get).current name.lexeme value name.line; return none) :=
      fun value => .bind fun _ => .bind fun _ => .pure
    cases initializer with
    | none => exact .note hbegins id (.unseen (hdefine .nil))
    | some initializer => exact .note hbegins id (.unseen (.bind hdefine))
  | block site body =>
    have henter : Access.byDistance.execute rounds (depth + 1) (.block site body) =
      (do Run.enter (← get).current site : Run FrameId) >>= fun frame =>
        Run.within frame (Run.sequence (Access.byDistance.execute rounds depth) body) := rfl
    rw [henter]
    refine .note hbegins id (.bind (.silent _) fun frame => ?_)
    exact .within frame (.sequence fun t ht => hinside (.block ht (.self t)))
  | conditional condition yes no =>
    have htests : Event.In (.conditional condition yes no) (.tests condition) :=
      .inl ⟨yes, no, .self _⟩
    refine .note hbegins id (.bind (.noted (Access.byDistance.evaluate rounds depth condition) htests id)
      fun value => ?_)
    by_cases htruthy : value.isTruthy = true
    · simp only [htruthy, if_true]
      exact hinside (.yes (.self yes))
    · simp only [htruthy]
      cases no with
      | none => exact .pure
      | some no => exact hinside (.no (.self no))
  | loop condition body =>
    have htests : Event.In (.loop condition body) (.tests condition) := .inr ⟨body, .self _⟩
    exact .note hbegins id (.loop (.noted _ htests id) (hinside (.loop (.self body))) rounds)
  | function site name params body =>
    exact .note hbegins id (.unseen (.bind fun _ => .bind fun _ => .pure))
  | «return» keyword operand =>
    cases operand with
    | none => exact .note hbegins id (.returnsNil fun _ => .self _)
    | some operand => exact .note hbegins id (.returns fun _ _ => .self _)
  | endMarker => exact .note hbegins id (.unseen (.bind fun _ => .pure))
  | «foreign» what => exact .note hbegins id (.unseen (.throw _))

/-- Watching a statement does not change its execution, and the events tell how it ends. -/
theorem watches_execute (rounds depth : Nat) (s : Stmt Site) :
    Watches (Accounts rounds (Event.In s)) (Access.byDistance.execute rounds depth s)
      (execute rounds depth s) := by
  induction depth generalizing s with
  | zero => exact .note (.self s) id (.unseen (.throw _))
  | succ depth ih => exact watches_execute_succ ih s

end Watch

end Lox
