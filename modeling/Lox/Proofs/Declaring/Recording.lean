import Lox.Proofs.Declaring.Tracing

/-!
# What is noted of a run

Every part of a run adds acts to the frame in which it is executed, as the trail of the executed
statement says, and to the frames that are made meanwhile, as the trail of one scope each. It adds none
to the other frames.
-/
namespace Lox
open Outcome

namespace Entries

@[simp] theorem of_nil (frame : FrameId) : Entries.of [] frame = [] := rfl

@[simp] theorem of_append (entries more : Entries) (frame : FrameId) :
    Entries.of (entries ++ more) frame = Entries.of entries frame ++ Entries.of more frame :=
  List.filterMap_append

theorem of_singleton (frame : FrameId) (act : Act) : Entries.of [(frame, act)] frame = [act] := by
  simp [of]

theorem of_singleton_of_ne {frame other : FrameId} (h : other ≠ frame) (act : Act) :
    Entries.of [(frame, act)] other = [] := by
  simp [of, Ne.symm h]

theorem of_eq_nil {entries : Entries} {frame : FrameId} (h : ∀ entry ∈ entries, entry.1 ≠ frame) :
    entries.of frame = [] :=
  List.filterMap_eq_nil_iff.mpr fun entry hmem => if_neg (h entry hmem)

end Entries

namespace Act

@[simp] theorem bound_nil : bound [] = [] := rfl

@[simp] theorem bound_append (acts more : List Act) : bound (acts ++ more) = bound acts ++ bound more :=
  List.filterMap_append

/-- A name that has been bound has been declared. -/
theorem mem_bound_iff {acts : List Act} {name : String} :
    name ∈ bound acts ↔ ∃ declarer, .declares declarer name ∈ acts := by
  rw [bound, List.mem_filterMap]
  constructor
  · rintro ⟨act, hmem, hname⟩
    cases act with
    | declares declarer other =>
      cases hname
      exact ⟨declarer, hmem⟩
    | collides | round => cases hname
  · rintro ⟨declarer, hmem⟩
    exact ⟨_, hmem, rfl⟩

end Act

theorem Scope.Trail.nothing (scope : Scope) : scope.Trail [] :=
  ⟨[], [], rfl, .nothing 0 _, .nothing 0 _⟩

theorem Scope.Trail.of_parts {scope : Scope} {given inside : List Act}
    (hgiven : Given 0 scope.params given) (hinside : Trails 0 scope.body inside) :
    scope.Trail (given ++ inside) :=
  ⟨given, inside, rfl, hgiven, hinside⟩

theorem Scope.distinct_empty : Scope.Distinct ⟨0, [], []⟩ :=
  List.nodup_nil

/-- Nothing is noted of an activation. -/
def Untouched (acts : List Act) : Prop :=
  acts = []

/-- What the entries of a run tell that has taken one store to another and has been executed in some
frame, where it has left its own trail. -/
structure Records (frame : FrameId) (own : List Act → Prop) (s : Store) (entries : Entries)
    (s' : Store) : Prop where
  frame_lt : frame < s.next
  next : s.next ≤ s'.next
  bounded : ∀ entry ∈ entries, entry.1 < s'.next
  own : own (entries.of frame)
  /-- In other frames that there were nothing is declared. -/
  others : ∀ other < s.next, other ≠ frame → entries.of other = []
  /-- A frame that has been made belongs to the activation of a scope. -/
  activations : ∀ other, s.next ≤ other →
    ∃ scope : Scope, scope.Distinct ∧ scope.Trail (entries.of other)
  names : ∀ other, s'.names other = s.names other ++ Act.bound (entries.of other)
  /-- What is bound already has been bound before. -/
  collisions : ∀ {front back : Entries} {other : FrameId} {declarer : Declarer} {name : String},
    entries = front ++ (other, .collides declarer name) :: back →
      name ∈ s.names other ++ Act.bound (front.of other)

namespace Records
variable {frame : FrameId} {own own' own'' : List Act → Prop} {s s' s'' : Store}
  {entries more : Entries}

theorem mono (h : Records frame own s entries s') (hown : ∀ acts, own acts → own' acts) :
    Records frame own' s entries s' :=
  { h with own := hown _ h.own }

/-- Nothing has happened. -/
theorem nothing (hframe : frame < s.next) (hown : own []) (hsame : s.SameNames s') :
    Records frame own s [] s' where
  frame_lt := hframe
  next := Nat.le_of_eq hsame.next.symm
  bounded _ hmem := by cases hmem
  own := hown
  others _ _ _ := rfl
  activations _ _ := ⟨_, Scope.distinct_empty, .nothing _⟩
  names other := by simpa using hsame.names other
  collisions heq := by simp at heq

/-- One run behind another one in the same frame. -/
theorem trans (h : Records frame own s entries s') (h' : Records frame own' s' more s'')
    (hown : ∀ acts acts', own acts → own' acts' → own'' (acts ++ acts')) :
    Records frame own'' s (entries ++ more) s'' where
  frame_lt := h.frame_lt
  next := Nat.le_trans h.next h'.next
  bounded entry hmem := by
    rcases List.mem_append.mp hmem with hmem | hmem
    · exact Nat.lt_of_lt_of_le (h.bounded entry hmem) h'.next
    · exact h'.bounded entry hmem
  own := by
    rw [Entries.of_append]
    exact hown _ _ h.own h'.own
  others other hother hne := by
    rw [Entries.of_append, h.others other hother hne,
      h'.others other (Nat.lt_of_lt_of_le hother h.next) hne]
    rfl
  activations other hother := by
    by_cases hmade : other < s'.next
    · -- The frame was made by the first run, and the second one leaves it alone.
      have hne : other ≠ frame := fun heq => Nat.not_lt.mpr hother (heq ▸ h.frame_lt)
      rw [Entries.of_append, h'.others other hmade hne, List.append_nil]
      exact h.activations other hother
    · have hnone : entries.of other = [] :=
        Entries.of_eq_nil fun entry hmem heq => hmade (heq ▸ h.bounded entry hmem)
      rw [Entries.of_append, hnone, List.nil_append]
      exact h'.activations other (Nat.not_lt.mp hmade)
  names other := by
    rw [h'.names other, h.names other, Entries.of_append, Act.bound_append, List.append_assoc]
  collisions {front back other declarer name} heq := by
    rcases List.append_eq_append_iff.mp heq with ⟨middle, rfl, hmore⟩ | ⟨middle, hentries, hmiddle⟩
    · have hname := h'.collisions hmore
      rwa [h.names other, List.append_assoc, ← Act.bound_append, ← Entries.of_append] at hname
    · cases middle with
      | nil =>
        have hmore : more = [] ++ (other, .collides declarer name) :: back := hmiddle.symm
        have hname := h'.collisions hmore
        rw [List.append_nil] at hentries
        simpa [h.names other, hentries] using hname
      | cons entry middle =>
        obtain ⟨rfl, -⟩ := List.cons.inj hmiddle
        exact h.collisions hentries

/-- One act is noted. -/
theorem single {act : Act} (hframe : frame < s.next) (hown : own [act]) (hnext : s'.next = s.next)
    (hnames : s'.names frame = s.names frame ++ Act.bound [act])
    (hothers : ∀ other, other ≠ frame → s'.names other = s.names other)
    (hcollision : ∀ declarer name, act = .collides declarer name → name ∈ s.names frame) :
    Records frame own s [(frame, act)] s' where
  frame_lt := hframe
  next := Nat.le_of_eq hnext.symm
  bounded entry hmem := by
    rw [List.mem_singleton.mp hmem, hnext]
    exact hframe
  own := by rwa [Entries.of_singleton]
  others _ _ hne := Entries.of_singleton_of_ne hne _
  activations other hother := by
    have hne : other ≠ frame := fun heq => Nat.not_lt.mpr hother (heq ▸ hframe)
    rw [Entries.of_singleton_of_ne hne]
    exact ⟨_, Scope.distinct_empty, .nothing _⟩
  names other := by
    by_cases hother : other = frame
    · rw [hother, Entries.of_singleton, hnames]
    · rw [Entries.of_singleton_of_ne hother, hothers other hother, Act.bound_nil, List.append_nil]
  collisions {front back other declarer name} heq := by
    cases front with
    | nil =>
      obtain ⟨rfl, rfl⟩ := Prod.mk.inj (List.cons.inj heq).1
      exact List.mem_append_left _ (hcollision _ _ rfl)
    | cons entry front => simp at heq

/-- A loop goes round. -/
theorem round (hframe : frame < s.next) (route : Route) :
    Records frame (· = [.round route]) s [(frame, .round route)] s :=
  single hframe rfl rfl (List.append_nil _).symm (fun _ _ => rfl) fun _ _ h => by cases h

/-- A name is declared that may be bound already. -/
theorem collides (hframe : frame < s.next) (declarer : Declarer) {name : String}
    (h : s.binds frame name = true) :
    Records frame (· = [.collides declarer name]) s [(frame, .collides declarer name)] s := by
  refine single hframe rfl rfl (List.append_nil _).symm (fun _ _ => rfl) fun _ _ heq => ?_
  cases heq
  exact Store.mem_names_iff.mpr h

theorem declares (hframe : frame < s.next) (declarer : Declarer) (name : String) (value : Value) :
    Records frame (· = [.declares declarer name]) s [(frame, .declares declarer name)]
      (s.define frame name value) := by
  refine single hframe rfl (Store.next_define ..) ?_ (fun other hother => ?_) fun _ _ heq => by cases heq
  · obtain ⟨f, hf⟩ := Store.exists_frame hframe
    have hframe' := Store.frame_define s frame frame name value
    rw [if_pos rfl, hf] at hframe'
    rw [Store.names, Store.names, hf, hframe']
    exact f.names_define name value
  · rw [Store.names, Store.names, Store.frame_define, if_neg (Ne.symm hother)]

/-- The activation of a scope in a new frame, seen from an old frame. -/
theorem activation {outer : List FrameId} {origin : Option Site} {scope : Scope}
    (hframe : frame < s.next) (hscope : scope.Distinct)
    (h : Records s.next scope.Trail (s.push outer origin) entries s') :
    Records frame Untouched s entries s' where
  frame_lt := hframe
  next := by
    have hnext := h.next
    rw [Store.next_push] at hnext
    exact Nat.le_of_succ_le hnext
  bounded := h.bounded
  own := h.others frame (Store.next_push .. ▸ Nat.lt_succ_of_lt hframe) (Nat.ne_of_lt hframe)
  others other hother _ :=
    h.others other (Store.next_push .. ▸ Nat.lt_succ_of_lt hother) (Nat.ne_of_lt hother)
  activations other hother := by
    rcases Nat.eq_or_lt_of_le hother with rfl | hlater
    · exact ⟨scope, hscope, h.own⟩
    · exact h.activations other (by rwa [Store.next_push])
  names other := by rw [h.names other, Store.names_push]
  collisions heq := by
    have hname := h.collisions heq
    rwa [Store.names_push] at hname

end Records

/-- A run that is executed in some frame is traced: tracing does not change it, its entries tell what
it has done, and if it stops because a name is bound already, then this is the last of them. -/
def Notes {α : Type} (frame : FrameId) (own : List Act → Prop) (m : Machine) (x : Run α)
    (w : Trace α) : Prop :=
  ∀ before, ∃ entries, w ⟨m, before⟩ = Diary.result (before ++ entries) (x m) ∧
    Records frame own m.store entries (final (x m)).store ∧
    ∀ name, Redeclares name (x m) → ∃ front other declarer,
      entries = front ++ [(other, .collides declarer name)]

namespace Notes
variable {α β : Type} {frame : FrameId} {own own' own'' : List Act → Prop} {m : Machine} {x y : Run α}
  {w v : Trace α} {f : α → Run β} {g : α → Trace β}

theorem congr (hx : x m = y m) (hw : ∀ before, w ⟨m, before⟩ = v ⟨m, before⟩)
    (h : Notes frame own m y v) : Notes frame own m x w := by
  intro before
  obtain ⟨entries, heq, hrecords⟩ := h before
  exact ⟨entries, by rw [hw, hx, heq], by rwa [hx]⟩

theorem mono (h : Notes frame own m x w) (hown : ∀ acts, own acts → own' acts) :
    Notes frame own' m x w := fun before =>
  let ⟨entries, heq, hrecords, hends⟩ := h before
  ⟨entries, heq, hrecords.mono hown, hends⟩

/-- Nothing is noted of a run that declares nothing. -/
theorem plain (hx : Quiet x) (hframe : frame < m.store.next) (hown : own []) :
    Notes frame own m x (Trace.plain x) := by
  obtain ⟨hsame, hredeclares⟩ := hx m
  refine fun before => ⟨[], ?_, .nothing hframe hown hsame, fun name h => absurd h (hredeclares name)⟩
  rw [List.append_nil]
  rfl

theorem pure (a : α) (hframe : frame < m.store.next) (hown : own []) :
    Notes frame own m (Pure.pure a) (Pure.pure a) :=
  (plain (.pure a) hframe hown).congr rfl fun _ => rfl

/-- A run is followed by others. -/
theorem followed (hx : Notes frame own m x w)
    (hown : ∀ acts acts', own acts → own' acts' → own'' (acts ++ acts')) (hnone : own' [])
    (hf : ∀ a m', x m = .ok a m' → Notes frame own' m' (f a) (g a)) :
    Notes frame own'' m (x >>= f) (w >>= g) := by
  intro before
  obtain ⟨entries, heq, hrecords, hends⟩ := hx before
  rw [bind_apply, bind_apply, heq]
  cases hrun : x m with
  | error stop m' =>
    rw [hrun] at hrecords hends
    refine ⟨entries, rfl, hrecords.mono fun acts hacts => ?_, fun name h => hends name h.passed⟩
    have hboth := hown acts [] hacts hnone
    rwa [List.append_nil] at hboth
  | ok a m' =>
    rw [hrun] at hrecords
    obtain ⟨more, heq', hrecords', hends'⟩ := hf a m' hrun (before ++ entries)
    refine ⟨entries ++ more, ?_, hrecords.trans hrecords' hown, fun name h => ?_⟩
    · rw [← List.append_assoc, ← heq']
      rfl
    · obtain ⟨front, other, declarer, rfl⟩ := hends' name h
      exact ⟨entries ++ front, other, declarer, (List.append_assoc ..).symm⟩

/-- A run that declares nothing in the frame is followed by others. -/
theorem bind (hx : Notes frame Untouched m x w) (hnone : own [])
    (hf : ∀ a m', x m = .ok a m' → Notes frame own m' (f a) (g a)) :
    Notes frame own m (x >>= f) (w >>= g) := by
  refine hx.followed (fun acts acts' hacts hacts' => ?_) hnone hf
  rwa [show acts = [] from hacts, List.nil_append]

/-- A run is followed by one that declares nothing in the frame. -/
theorem completed (hx : Notes frame own m x w)
    (hf : ∀ a m', x m = .ok a m' → Notes frame Untouched m' (f a) (g a)) :
    Notes frame own m (x >>= f) (w >>= g) := by
  have hnone : Untouched [] := rfl
  refine hx.followed (fun acts acts' hacts hacts' => ?_) hnone hf
  rwa [show acts' = [] from hacts', List.append_nil]

theorem frame_lt_of_ok {a : α} {m' : Machine} (h : Notes frame own m x w) (hrun : x m = .ok a m') :
    frame < m'.store.next := by
  obtain ⟨entries, -, hrecords, -⟩ := h []
  rw [hrun] at hrecords
  exact Nat.lt_of_lt_of_le hrecords.frame_lt hrecords.next

theorem map {h : α → β} (hx : Notes frame Untouched m x w) :
    Notes frame Untouched m (h <$> x) (h <$> w) :=
  hx.bind rfl fun a _ hrun => pure (h a) (hx.frame_lt_of_ok hrun) rfl

/-- In another current frame. -/
theorem within {other : FrameId} (h : Notes frame own { m with current := other } x w) :
    Notes frame own m (Run.within other x) (Trace.within other w) := by
  intro before
  obtain ⟨entries, heq, hrecords, hends⟩ := h before
  simp only [Run.within, Trace.within, heq]
  cases hrun : x { m with current := other } with
  | ok a t =>
    rw [hrun] at hrecords
    exact ⟨entries, rfl, hrecords, fun name h => absurd h (not_redeclares_ok name a _)⟩
  | error stop t =>
    rw [hrun] at hrecords hends
    exact ⟨entries, rfl, hrecords, fun name h => hends name h.passed⟩

/-- The declaration of a name in the frame. -/
theorem define (hframe : frame < m.store.next) (declarer : Declarer) (name : String) (value : Value)
    (line : Option Int) (hown : ∀ act : Act, act.Tries declarer name → own [act]) :
    Notes frame own m (Run.define frame name value line)
      (Trace.define frame declarer name value line) := by
  intro before
  by_cases hbinds : m.store.binds frame name = true
  · have hrun : Run.define frame name value line m =
        .error (.error ⟨.alreadyDeclared name, line⟩) m := by
      simp only [Run.define, get_bind_apply, hbinds, if_true]
      rfl
    refine ⟨[(frame, .collides declarer name)], ?_, ?_, ?_⟩
    · show Trace.plain (Run.define frame name value line) ⟨m, before ++ [(frame, if _ then _ else _)]⟩ = _
      rw [if_pos hbinds]
      rfl
    · rw [hrun]
      exact (Records.collides hframe declarer hbinds).mono fun _ h => h ▸ hown _ (.inr rfl)
    · rintro other ⟨_, _, h⟩
      rw [hrun] at h
      cases h
      exact ⟨[], frame, declarer, rfl⟩
  · have hrun : Run.define frame name value line m =
        .ok () { m with store := m.store.define frame name value } := by
      simp only [Run.define, get_bind_apply, hbinds]
      rfl
    refine ⟨[(frame, .declares declarer name)], ?_, ?_, ?_⟩
    · show Trace.plain (Run.define frame name value line) ⟨m, before ++ [(frame, if _ then _ else _)]⟩ = _
      rw [if_neg hbinds]
      rfl
    · rw [hrun]
      exact (Records.declares hframe declarer name value).mono fun _ h => h ▸ hown _ (.inl rfl)
    · rintro other ⟨_, _, h⟩
      rw [hrun] at h
      cases h

/-- A new frame is made, and a scope is activated in it. -/
theorem enter {outer : FrameId} {origin : Option Site} {k : FrameId → Run β} {k' : FrameId → Trace β}
    (scope : Scope) (hframe : frame < m.store.next) (hscope : scope.Distinct)
    (h : Notes m.store.next scope.Trail
      { m with store := m.store.push (m.store.chain outer) origin } (k m.store.next)
      (k' m.store.next)) :
    Notes frame Untouched m (do k (← Run.enter outer origin))
      (do k' (← Trace.plain (do Run.enter outer origin))) := by
  intro before
  obtain ⟨entries, heq, hrecords, hends⟩ := h before
  exact ⟨entries, heq, hrecords.activation hframe hscope, hends⟩

/-- A loop goes round in the current frame. -/
theorem round {route : Route} (h : Notes m.current own m x w)
    (hown : ∀ acts, own acts → own' (.round route :: acts)) :
    Notes m.current own' m x (do
      Trace.note (← get).machine.current (.round route)
      w) := by
  intro before
  obtain ⟨entries, heq, hrecords, hends⟩ := h (before ++ [(m.current, .round route)])
  refine ⟨[(m.current, .round route)] ++ entries, ?_, ?_, fun name hname => ?_⟩
  · rw [← List.append_assoc, ← heq]
    rfl
  · refine (Records.round hrecords.frame_lt route).trans hrecords fun acts acts' hacts hacts' => ?_
    rw [show acts = [.round route] from hacts]
    exact hown acts' hacts'
  · obtain ⟨front, other, declarer, rfl⟩ := hends name hname
    exact ⟨_ :: front, other, declarer, rfl⟩

/-- The parameters of a call are declared in its frame. -/
theorem bindParameters {params : List Token} {arguments : List Value} {index : Nat}
    (hframe : frame < m.store.next) :
    Notes frame (Given index params) m (Run.bindParameters frame params arguments)
      (Trace.bindParameters frame index params arguments) := by
  induction params generalizing arguments index m with
  | nil => exact pure _ hframe (.nothing _ _)
  | cons param params ih =>
    cases arguments with
    | nil => exact pure _ hframe (.nothing _ _)
    | cons argument arguments =>
      have hfirst : Notes frame (fun acts => ∃ act : Act,
            act.Tries (.parameter index) param.lexeme ∧ acts = [act]) m
          (Run.define frame param.lexeme argument param.line)
          (Trace.define frame (.parameter index) param.lexeme argument param.line) :=
        define hframe _ _ _ _ fun act htries => ⟨act, htries, rfl⟩
      refine hfirst.followed ?_ (.nothing (index + 1) _) fun _ m' hrun =>
        ih (hfirst.frame_lt_of_ok hrun)
      rintro _ acts ⟨act, htries, rfl⟩ hacts
      exact .cons htries hacts

end Notes

/-- Machines whose frames stand in one another, and whose functions declare no name of a scope
twice. -/
structure Machine.Tidy (m : Machine) : Prop where
  sound : m.Sound
  distinct : m.store.Scoped Scope.Distinct

namespace Machine.Tidy
variable {m m' : Machine} {rounds depth : Nat}

/-- What a run leaves that comes to its end. -/
theorem behind {α : Type} {x : Run α} {made : FrameId → α → Prop} {post : α → Prop} {a : α}
    (hleaves : Leaves m made (x m)) (hsettles : Settles Scope.Distinct post m (x m))
    (h : x m = .ok a m') : m'.Tidy ∧ m'.current = m.current ∧ m.store.next ≤ m'.store.next ∧
      made m'.store.next a ∧ post a := by
  rw [h] at hleaves hsettles
  obtain ⟨houtlives, hmade⟩ := hleaves
  exact ⟨⟨houtlives.sound, hsettles.1.store⟩, houtlives.current, houtlives.next, hmade, hsettles.2⟩

theorem inFrame (h : m.Tidy) {frame : FrameId} (hframe : frame < m.store.next) :
    Tidy { m with current := frame } :=
  ⟨h.sound.inFrame hframe, h.distinct⟩

theorem push (h : m.Tidy) {outer : FrameId} (houter : outer < m.store.next) (origin : Option Site) :
    Tidy { m with store := m.store.push (m.store.chain outer) origin } :=
  ⟨(h.sound.push houter origin).sound, h.distinct.push _ _⟩

/-- All ways to execute something keep the functions in the same way. -/
theorem conducts (rounds depth : Nat) :
    Run.ConductsUpTo Scope.Distinct Run.bindParameters rounds depth :=
  Run.conductsUpTo (fun _ _ _ => rfl) rounds depth

theorem evaluated (hm : m.Tidy) {e : Expr Site} {value : Value}
    (h : Access.byDistance.evaluate rounds depth e m = .ok value m') :
    m'.Tidy ∧ m'.current = m.current ∧ m.store.next ≤ m'.store.next ∧
      value.Made m'.store.next ∧ value.Scoped Scope.Distinct :=
  behind ((Run.restoresUpTo rounds depth).evaluate e m hm.sound)
    ((conducts rounds depth).evaluate e m hm.distinct).2 h

theorem evaluatedAll (hm : m.Tidy) {es : List (Expr Site)} {values : List Value}
    (h : es.mapM (Access.byDistance.evaluate rounds depth) m = .ok values m') :
    m'.Tidy ∧ m'.current = m.current ∧ m.store.next ≤ m'.store.next ∧
      (∀ value ∈ values, value.Made m'.store.next) ∧ ∀ value ∈ values, value.Scoped Scope.Distinct :=
  behind (Leaves.mapM hm.sound fun e _ => (Run.restoresUpTo rounds depth).evaluate e)
    (Conducts.mapM (fun e _ => (conducts rounds depth).evaluate e) m hm.distinct).2 h

theorem executed (hm : m.Tidy) {s : Stmt Site} (hs : ∀ scope ∈ s.scopes, scope.Distinct)
    {completion : Completion}
    (h : Access.byDistance.execute rounds depth s m = .ok completion m') :
    m'.Tidy ∧ m'.current = m.current := by
  obtain ⟨htidy, hcurrent, -⟩ := behind ((Run.restoresUpTo rounds depth).execute s m hm.sound)
    ((conducts rounds depth).execute s hs m hm.distinct).2 h
  exact ⟨htidy, hcurrent⟩

theorem given (hm : m.Tidy) {frame : FrameId} {params : List Token} {arguments : List Value}
    (hmade : ∀ value ∈ arguments, value.Made m.store.next)
    (hscoped : ∀ value ∈ arguments, value.Scoped Scope.Distinct)
    (h : Run.bindParameters frame params arguments m = .ok () m') : m'.Tidy :=
  (behind (Leaves.bindParameters hm.sound frame hmade)
    (Conducts.bindParameters frame hscoped m hm.distinct).2 h).1

end Machine.Tidy

/-- Tracing of what is walked at most so deep. -/
structure TracesUpTo (rounds depth : Nat) : Prop where
  evaluate : ∀ e {m : Machine}, m.Tidy → Notes m.current Untouched m
    (Access.byDistance.evaluate rounds depth e) (Trace.evaluate rounds depth e)
  execute : ∀ route {s : Stmt Site} {m : Machine}, m.Tidy → (∀ scope ∈ s.scopes, scope.Distinct) →
    Notes m.current (Trail route s) m (Access.byDistance.execute rounds depth s)
      (Trace.execute rounds depth route s)

namespace TracesUpTo
variable {rounds depth : Nat} {m : Machine}

theorem sequence (ih : TracesUpTo rounds depth) {ss : List (Stmt Site)} {index : Nat} (hm : m.Tidy)
    (hss : ∀ scope ∈ Stmt.allScopes ss, scope.Distinct) :
    Notes m.current (Trails index ss) m (Run.sequence (Access.byDistance.execute rounds depth) ss)
      (Trace.sequence (Trace.execute rounds depth) index ss) := by
  induction ss generalizing index m with
  | nil => exact .pure _ hm.sound.current (.nothing _ _)
  | cons s ss ihss =>
    have hs : ∀ scope ∈ s.scopes, scope.Distinct :=
      fun scope hscope => hss scope (List.mem_append_left _ hscope)
    refine (ih.execute [.item index] hm hs).followed (fun _ _ => .cons) (.nothing _ _)
      fun completion m' hrun => ?_
    obtain ⟨hm', hcurrent⟩ := hm.executed hs hrun
    rw [← hcurrent]
    cases completion with
    | none => exact ihss hm' fun scope hscope => hss scope (List.mem_append_right _ hscope)
    | some returned => exact .pure _ hm'.sound.current (.nothing _ _)

/-- The body of a scope is executed in a new frame. -/
theorem body (ih : TracesUpTo rounds depth) {ss : List (Stmt Site)} {frame : FrameId} (hm : m.Tidy)
    (hframe : frame < m.store.next) (hss : ∀ scope ∈ Stmt.allScopes ss, scope.Distinct) :
    Notes frame (Trails 0 ss) m
      (Run.within frame (Run.sequence (Access.byDistance.execute rounds depth) ss))
      (Trace.within frame (Trace.sequence (Trace.execute rounds depth) 0 ss)) :=
  (ih.sequence (hm.inFrame hframe) hss).within

theorem loop (ih : TracesUpTo rounds depth) {route : Route} {condition : Expr Site}
    {body : Stmt Site} (hm : m.Tidy) (hbody : ∀ scope ∈ body.scopes, scope.Distinct) (count : Nat) :
    Notes m.current (Trail route (.loop condition body)) m
      (Run.loop ((·.isTruthy) <$> Access.byDistance.evaluate rounds depth condition)
        (Access.byDistance.execute rounds depth body) count)
      (Trace.loop route ((·.isTruthy) <$> Trace.evaluate rounds depth condition)
        (Trace.execute rounds depth (.body :: route) body) count) := by
  induction count generalizing m with
  | zero =>
    have hquiet : Quiet (throw .unfinished : Run Completion) := .throw fun _ _ h => by cases h
    exact (Notes.plain hquiet hm.sound.current (.nothing _ _)).congr rfl fun _ => rfl
  | succ count ihcount =>
    refine (ih.evaluate condition hm).map.bind (.nothing _ _) fun holds m' hrun => ?_
    obtain ⟨value, hvalue, -⟩ := map_eq_ok.mp hrun
    obtain ⟨hm', hcurrent, -⟩ := hm.evaluated hvalue
    rw [← hcurrent]
    cases holds with
    | false => exact .pure none hm'.sound.current (.nothing _ _)
    | true =>
      have hround : ∀ acts, Trail route (.loop condition body) (.round route :: acts) →
          Trail route (.loop condition body) (.round route :: acts) := fun _ h => h
      refine Notes.round ?_ hround
      refine (ih.execute (.body :: route) hm' hbody).followed (fun _ _ => .round) (.nothing _ _)
        fun completion m'' hrun' => ?_
      obtain ⟨hm'', hcurrent'⟩ := hm'.executed hbody hrun'
      rw [← hcurrent']
      cases completion with
      | none => exact ihcount hm''
      | some returned => exact .pure _ hm''.sound.current (.nothing _ _)

theorem mapM (ih : TracesUpTo rounds depth) (es : List (Expr Site)) (hm : m.Tidy) :
    Notes m.current Untouched m (es.mapM (Access.byDistance.evaluate rounds depth))
      (es.mapM (Trace.evaluate rounds depth)) := by
  induction es generalizing m with
  | nil => exact .pure _ hm.sound.current rfl
  | cons e es ihes =>
    rw [List.mapM_cons, List.mapM_cons]
    refine (ih.evaluate e hm).bind rfl fun value m' hrun => ?_
    obtain ⟨hm', hcurrent, -⟩ := hm.evaluated hrun
    rw [← hcurrent]
    exact (ihes hm').bind rfl fun values m'' hrun' =>
      .pure _ ((ihes hm').frame_lt_of_ok hrun') rfl

/-- A call activates the scope of the function. -/
theorem call (ih : TracesUpTo rounds depth) (hm : m.Tidy) (line : Int) {callee : Value}
    (hmade : callee.Made m.store.next) (hscoped : callee.Scoped Scope.Distinct)
    {arguments : List Value} (hmades : ∀ value ∈ arguments, value.Made m.store.next)
    (hscopeds : ∀ value ∈ arguments, value.Scoped Scope.Distinct) :
    Notes m.current Untouched m
      (Run.call (Access.byDistance.execute rounds depth) line callee arguments)
      (Trace.call (Trace.execute rounds depth) line callee arguments) := by
  have hframe := hm.sound.current
  unfold Run.call Trace.call
  cases callee.arity? with
  | none => exact .plain (.fail (fun _ h => by cases h) _) hframe rfl
  | some arity =>
    by_cases hlength : arguments.length = arity
    · simp only [hlength, if_true]
      cases callee with
      | atom value => exact .plain .readClock hframe rfl
      | native function => exact .plain .readClock hframe rfl
      | closure function =>
        obtain ⟨hscope, hinside⟩ := hscoped
        have hentered := hm.push hmade (some function.site)
        have hnew : m.store.next < (m.store.push (m.store.chain function.frame)
            (some function.site)).next := Store.next_push .. ▸ Nat.lt_succ_self _
        refine Notes.enter ⟨function.site, function.params, function.body⟩ hframe hscope ?_
        have hparams : Notes m.store.next (Given 0 function.params)
            { m with store := m.store.push (m.store.chain function.frame) (some function.site) }
            (Run.bindParameters m.store.next function.params arguments)
            (Trace.bindParameters m.store.next 0 function.params arguments) := .bindParameters hnew
        have hparts : ∀ given inside, Given 0 function.params given → Trails 0 function.body inside →
            Scope.Trail ⟨function.site, function.params, function.body⟩ (given ++ inside) :=
          fun _ _ hgiven hinside => .of_parts hgiven hinside
        refine hparams.followed hparts (.nothing _ _) fun _ m' hrun => ?_
        have hm' := hentered.given (fun value hvalue => (hmades value hvalue).mono (by simp)) hscopeds hrun
        have hbody := ih.body hm' (hparams.frame_lt_of_ok hrun) hinside
        exact hbody.completed fun _ _ hrun' => .pure _ (hbody.frame_lt_of_ok hrun') rfl
    · simp only [hlength, if_false]
      exact .plain (.fail (fun _ h => by cases h) _) hframe rfl

theorem evaluate_succ (ih : TracesUpTo rounds depth) (e : Expr Site) (hm : m.Tidy) :
    Notes m.current Untouched m (Access.byDistance.evaluate rounds (depth + 1) e)
      (Trace.evaluate rounds (depth + 1) e) := by
  have hframe := hm.sound.current
  cases e with
  | literal value => exact .pure _ hframe rfl
  | grouping inner => exact ih.evaluate inner hm
  | unary operator operand =>
    have hoperand := ih.evaluate operand hm
    exact hoperand.bind rfl fun _ _ hrun => .plain (.unary _ _) (hoperand.frame_lt_of_ok hrun) rfl
  | binary left operator right =>
    refine (ih.evaluate left hm).bind rfl fun _ m' hrun => ?_
    obtain ⟨hm', hcurrent, -⟩ := hm.evaluated hrun
    rw [← hcurrent]
    have hright := ih.evaluate right hm'
    exact hright.bind rfl fun _ _ hrun' => .plain (.binary _ _ _) (hright.frame_lt_of_ok hrun') rfl
  | logical left operator right =>
    refine (ih.evaluate left hm).bind rfl fun value m' hrun => ?_
    obtain ⟨hm', hcurrent, -⟩ := hm.evaluated hrun
    rw [← hcurrent]
    by_cases hdecides : Run.decides operator value = true
    · simp only [hdecides, if_true]
      exact .pure _ hm'.sound.current rfl
    · simp only [hdecides]
      exact ih.evaluate right hm'
  | «variable» site name => exact .plain (.read _ _) hframe rfl
  | assignment site name value =>
    have hvalue := ih.evaluate value hm
    exact hvalue.bind rfl fun _ _ hrun => .plain (.write _ _ _) (hvalue.frame_lt_of_ok hrun) rfl
  | call callee paren arguments =>
    refine (ih.evaluate callee hm).bind rfl fun value m' hrun => ?_
    obtain ⟨hm', hcurrent, -, hmade, hscoped⟩ := hm.evaluated hrun
    rw [← hcurrent]
    refine (ih.mapM arguments hm').bind rfl fun values m'' hrun' => ?_
    obtain ⟨hm'', hcurrent', hnext, hmades, hscopeds⟩ := hm'.evaluatedAll hrun'
    rw [← hcurrent']
    exact ih.call hm'' paren.line (hmade.mono hnext) hscoped hmades hscopeds
  | «foreign» what => exact .plain (.fault _) hframe rfl

/-- A statement declares its name when its value is known. -/
theorem declaration {route : Route} {s : Stmt Site} {name : Token}
    (hdeclares : ∀ act : Act, act.Tries (.statement route) name.lexeme → Trail route s [act])
    (hm : m.Tidy) (value : Value) :
    Notes m.current (Trail route s) m
      (do Run.define m.current name.lexeme value name.line
          return none)
      (do Trace.define m.current (.statement route) name.lexeme value name.line
          return none : Trace Completion) := by
  have hdefine := Notes.define hm.sound.current (.statement route) name.lexeme value name.line
    hdeclares
  exact hdefine.completed fun _ _ hrun => .pure _ (hdefine.frame_lt_of_ok hrun) rfl

theorem execute_succ (ih : TracesUpTo rounds depth) (route : Route) {s : Stmt Site} (hm : m.Tidy)
    (hs : ∀ scope ∈ s.scopes, scope.Distinct) :
    Notes m.current (Trail route s) m (Access.byDistance.execute rounds (depth + 1) s)
      (Trace.execute rounds (depth + 1) route s) := by
  have hframe := hm.sound.current
  cases s with
  | expression value =>
    have hvalue := ih.evaluate value hm
    exact hvalue.bind (.nothing _ _) fun _ _ hrun =>
      .pure _ (hvalue.frame_lt_of_ok hrun) (.nothing _ _)
  | print value =>
    have hvalue := ih.evaluate value hm
    refine hvalue.bind (.nothing _ _) fun value m' hrun => ?_
    have hprint : Notes m.current Untouched m' (Run.print value.shown)
        (Trace.plain (Run.print value.shown)) := .plain (.print _) (hvalue.frame_lt_of_ok hrun) rfl
    exact hprint.bind (.nothing _ _) fun _ _ hrun' =>
      .pure _ (hprint.frame_lt_of_ok hrun') (.nothing _ _)
  | assert keyword condition =>
    have hcondition := ih.evaluate condition hm
    refine hcondition.bind (.nothing _ _) fun value m' hrun => ?_
    have hframe' := hcondition.frame_lt_of_ok hrun
    by_cases htruthy : value.isTruthy = true
    · simp only [htruthy, if_true]
      exact .pure _ hframe' (.nothing _ _)
    · simp only [htruthy]
      exact .plain (.fail (fun _ h => by cases h) _) hframe' (.nothing _ _)
  | «variable» name initializer =>
    cases initializer with
    | none => exact (declaration (fun _ => .variable) hm .nil).congr rfl fun _ => rfl
    | some initializer =>
      refine (ih.evaluate initializer hm).bind (.nothing _ _) fun value m' hrun => ?_
      obtain ⟨hm', hcurrent, -⟩ := hm.evaluated hrun
      rw [← hcurrent]
      exact (declaration (fun _ => .variable) hm' value).congr rfl fun _ => rfl
  | block site body =>
    have hinside : ∀ scope ∈ Stmt.allScopes body, scope.Distinct :=
      fun scope hscope => hs scope (List.mem_cons_of_mem _ hscope)
    have hnew : m.store.next < (m.store.push (m.store.chain m.current) (some site)).next :=
      Store.next_push .. ▸ Nat.lt_succ_self _
    have hbody := ih.body (hm.push hframe (some site)) hnew hinside
    have hscope : Scope.Distinct ⟨site, [], body⟩ := hs _ List.mem_cons_self
    have henter : Notes m.current Untouched m
        (do Run.within (← Run.enter m.current (some site))
              (Run.sequence (Access.byDistance.execute rounds depth) body))
        (do Trace.within (← Trace.plain (Run.enter m.current (some site)))
              (Trace.sequence (Trace.execute rounds depth) 0 body)) :=
      .enter ⟨site, [], body⟩ hframe hscope (hbody.mono fun acts hacts =>
        ⟨[], acts, rfl, .nothing _ _, hacts⟩)
    exact (henter.mono fun _ h => h ▸ Trail.nothing route _).congr rfl fun _ => rfl
  | conditional condition yes no =>
    refine (ih.evaluate condition hm).bind (.nothing _ _) fun value m' hrun => ?_
    obtain ⟨hm', hcurrent, -⟩ := hm.evaluated hrun
    rw [← hcurrent]
    by_cases htruthy : value.isTruthy = true
    · simp only [htruthy, if_true]
      have hyes : ∀ scope ∈ yes.scopes, scope.Distinct := by
        cases no with
        | none => exact hs
        | some no => exact fun scope hscope => hs scope (List.mem_append_left _ hscope)
      exact (ih.execute (.yes :: route) hm' hyes).mono fun _ => .yes
    · simp only [htruthy]
      cases no with
      | none => exact .pure _ hm'.sound.current (.nothing _ _)
      | some no =>
        have hno : ∀ scope ∈ no.scopes, scope.Distinct :=
          fun scope hscope => hs scope (List.mem_append_right _ hscope)
        exact (ih.execute (.no :: route) hm' hno).mono fun _ => .no
  | loop condition body =>
    have hbody : ∀ scope ∈ body.scopes, scope.Distinct := hs
    exact ih.loop hm hbody rounds
  | function site name params body =>
    have hdeclares : ∀ act : Act, act.Tries (.statement route) name.lexeme →
        Trail route (.function site name params body) [act] := fun _ => .function
    exact (declaration hdeclares hm (.closure ⟨site, name, params, body, m.current⟩)).congr rfl
      fun _ => rfl
  | «return» keyword value =>
    cases value with
    | none => exact .pure _ hframe (.nothing _ _)
    | some value =>
      have hvalue := ih.evaluate value hm
      exact hvalue.bind (.nothing _ _) fun _ _ hrun =>
        .pure _ (hvalue.frame_lt_of_ok hrun) (.nothing _ _)
  | endMarker =>
    have hdone : Quiet (modify fun m => { m with done := true } : Run Unit) :=
      .of_store_eq fun _ => ⟨_, _, rfl, rfl⟩
    have hplain : Notes m.current Untouched m (modify fun m => { m with done := true })
        (Trace.plain (modify fun m => { m with done := true })) := .plain hdone hframe rfl
    exact hplain.bind (.nothing _ _) fun _ _ hrun =>
      .pure _ (hplain.frame_lt_of_ok hrun) (.nothing _ _)
  | «foreign» what => exact .plain (.fault _) hframe (.nothing _ _)

end TracesUpTo

theorem tracesUpTo (rounds depth : Nat) : TracesUpTo rounds depth := by
  induction depth with
  | zero =>
    have hfail : ∀ {α : Type}, Quiet (Run.fail .tooDeep none : Run α) :=
      .fail (fun _ h => by cases h) _
    exact ⟨fun _ _ hm => .plain hfail hm.sound.current rfl,
      fun _ _ _ hm _ => .plain hfail hm.sound.current (.nothing _ _)⟩
  | succ depth ih => exact ⟨fun e _ => ih.evaluate_succ e, fun route _ _ => ih.execute_succ route⟩

/-- Tracing of a statement that stands by itself and is no expression. -/
theorem Trace.interpret_eq_concluded {s : Stmt Site} (hs : ∀ e, s ≠ .expression e) (rounds depth : Nat) :
    interpret rounds depth s =
      execute rounds depth [] s >>= fun completion => plain (Run.concluded completion) := by
  cases s with
  | expression e => exact absurd rfl (hs e)
  | _ => exact bind_congr fun completion => by cases completion <;> rfl

/-- Tracing of a statement that stands by itself: in the current frame there is its own trail. -/
theorem notes_interpret (rounds depth : Nat) {s : Stmt Site} {m : Machine} (hm : m.Tidy)
    (hs : ∀ scope ∈ s.scopes, scope.Distinct) :
    Notes m.current (Trail [] s) m (Run.interpret rounds depth s) (Trace.interpret rounds depth s) := by
  have hall := tracesUpTo rounds depth
  by_cases hother : ∀ e, s ≠ .expression e
  · have hconcluded : ∀ completion, Quiet (Run.concluded completion) := by
      intro completion
      cases completion with
      | none => exact .pure _
      | some returned => exact .fail (fun _ h => by cases h) _
    have hexecute := hall.execute [] hm hs
    refine .congr (by rw [Run.interpret_eq_concluded hother])
      (fun _ => by rw [Trace.interpret_eq_concluded hother]) ?_
    exact hexecute.completed fun completion _ hrun =>
      .plain (hconcluded completion) (hexecute.frame_lt_of_ok hrun) rfl
  · push Not at hother
    obtain ⟨e, rfl⟩ := hother
    exact (hall.evaluate e hm).mono fun _ h => h ▸ Trail.nothing _ _

end Lox
