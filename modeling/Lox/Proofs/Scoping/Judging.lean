import Lox.Proofs.Respelling.Forms
import Lox.Proofs.Scoping.Marks
import Lox.Proofs.Scoping.Scopes
import Lox.Syntax.Height

/-!
# The resolver computes lexical scoping

The resolver carries the names that the scopes around it have declared from place to place. At every
place these are the names that have been declared before in the text, so the resolver finds the first
error of a statement if it has one, and otherwise the distances of its references.
-/
namespace Lox
open Outcome

/-- The resolver has come to position `p` behind the marks `before`, and sites from `next` on are not
in use. -/
structure Walk.Tracks (w : Walk) (next : Site) (p : Position) (before : List Mark) : Prop where
  scopes : List.Forall₂
    (fun names scope => ∀ name, name ∈ names ↔ declaredIn before scope name = true) w.scopes p.scopes
  nodup : p.scopes.Nodup
  initializing : w.initializing = p.initialized.map Prod.fst
  own : ∀ v ∈ p.initialized, v.2 = p.scopes
  inFunction : w.inFunction = p.inFunction
  used : ∀ scope ∈ p.scopes, scope.site < next
  known : ∀ m ∈ before, ∀ scope ∈ m.position.scopes, scope.site < next

/-- What has become of a walk from `w` on through the marks `ms`: it has stopped at the first error
in them, or it has found their bindings and stands behind them. -/
inductive Judged (next : Site) (p : Position) (before ms : List Mark) (w : Walk) :
    EStateM.Result ResolutionFailure Walk Unit → Prop where
  | error {e : ResolutionError} {later : List ResolutionError} {w' : Walk}
    (h : Mark.offences before ms = e :: later) : Judged next p before ms w (.error (.error e) w')
  | ok {w' : Walk} (h : Mark.offences before ms = [])
    (hfound : w'.found = (Mark.bindings before ms).reverse ++ w.found)
    (htracks : w'.Tracks next p (before ++ ms)) : Judged next p before ms w (.ok () w')

section Declaring
variable {before : List Mark} {scope : LocalScope} {name : String} {m : Mark}

theorem declaredIn_concat (before : List Mark) (m : Mark) (scope : LocalScope) (name : String) :
    declaredIn (before ++ [m]) scope name = (declaredIn before scope name ||
      (m.role = .declaration && m.position.scopes.head? = some scope && m.name.lexeme = name)) := by
  simp [declaredIn]

/-- A reference declares nothing. -/
theorem declaredIn_concat_of_reference {site : Site} {kind : ReferenceKind}
    (h : m.role = .reference site kind) : declaredIn (before ++ [m]) scope name =
      declaredIn before scope name := by
  simp [declaredIn_concat, h]

/-- A declaration in another scope, or outside of all of them, does not matter. -/
theorem declaredIn_concat_of_ne (h : m.position.scopes.head? ≠ some scope) :
    declaredIn (before ++ [m]) scope name = declaredIn before scope name := by
  simp [declaredIn_concat, h]

theorem forall₂_declaredIn_concat {names : List (List String)} {scopes : List LocalScope}
    (h : List.Forall₂ (fun names scope => ∀ name, name ∈ names ↔ declaredIn before scope name = true)
      names scopes) (hne : ∀ scope ∈ scopes, m.position.scopes.head? ≠ some scope) :
    List.Forall₂ (fun names scope => ∀ name, name ∈ names ↔
      declaredIn (before ++ [m]) scope name = true) names scopes := by
  induction h with
  | nil => exact .nil
  | cons hfront _ ih =>
    refine .cons (fun name => ?_) (ih fun scope hscope => hne scope (List.mem_cons_of_mem _ hscope))
    rw [declaredIn_concat_of_ne (hne _ List.mem_cons_self)]
    exact hfront name

/-- In a scope that has not been entered yet nothing is declared. -/
theorem declaredIn_eq_false
    (h : ∀ m ∈ before, ∀ other ∈ m.position.scopes, other.site < scope.site) :
    declaredIn before scope name = false := by
  refine Bool.eq_false_iff.mpr fun hany => ?_
  obtain ⟨m, hm, hdeclares⟩ := List.any_eq_true.mp hany
  have hhead : m.position.scopes.head? = some scope := by
    simp only [Bool.and_eq_true, decide_eq_true_eq] at hdeclares
    exact hdeclares.1.2
  exact Nat.lt_irrefl _ (h m hm scope (List.mem_of_mem_head? hhead))

end Declaring

namespace Walk.Tracks
variable {w : Walk} {next next' : Site} {p : Position} {before : List Mark} {m : Mark}

theorem start (next : Site) : Walk.start.Tracks next ⟨[], none⟩ [] where
  scopes := .nil
  nodup := List.nodup_nil
  initializing := rfl
  own := by simp
  inFunction := rfl
  used := fun _ hscope => absurd hscope List.not_mem_nil
  known := fun _ hm => absurd hm List.not_mem_nil

theorem mono (h : w.Tracks next p before) (hle : next ≤ next') : w.Tracks next' p before :=
  { h with
    used := fun scope hscope => Nat.lt_of_lt_of_le (h.used scope hscope) hle
    known := fun m hm scope hscope => Nat.lt_of_lt_of_le (h.known m hm scope hscope) hle }

theorem known_concat (h : w.Tracks next p before) (hposition : m.position = p) :
    ∀ other ∈ before ++ [m], ∀ scope ∈ other.position.scopes, scope.site < next := by
  intro other hother scope hscope
  rcases List.mem_append.mp hother with hold | hnew
  · exact h.known other hold scope hscope
  · obtain rfl := List.mem_singleton.mp hnew
    rw [hposition] at hscope
    exact h.used scope hscope

/-- The scopes of a walk find the distance of a name. -/
theorem findScope_eq (h : w.Tracks next p before) (hposition : m.position = p) :
    findScope m.name.lexeme w.scopes = m.distance? before := by
  have hscopes := h.scopes
  rw [Mark.distance?, hposition]
  generalize w.scopes = names at hscopes
  generalize p.scopes = scopes at hscopes
  induction hscopes with
  | nil => rfl
  | @cons front scope names scopes hfront _ ih =>
    rw [List.findIdx?_cons]
    by_cases hmem : m.name.lexeme ∈ front
    · rw [findScope_cons_of_mem names hmem, if_pos ((hfront _).mp hmem)]
    · rw [findScope_cons_of_not_mem names hmem, if_neg fun hin => hmem ((hfront _).mpr hin), ih]

/-- Behind a reference, whatever has been found of it, the same is declared. -/
theorem reference (h : w.Tracks next p before) (hposition : m.position = p) {site : Site}
    {kind : ReferenceKind} (hrole : m.role = .reference site kind) (found : List Binding) :
    Tracks { w with found } next p (before ++ [m]) :=
  { h with
    scopes := h.scopes.imp fun _ _ hnames name => by
      rw [declaredIn_concat_of_reference hrole]
      exact hnames name
    known := h.known_concat hposition }

/-- Into a scope whose site is the next number. -/
theorem enter {scopes : List LocalScope} (h : w.Tracks next ⟨scopes, none⟩ before)
    {scope : LocalScope} (hsite : scope.site = next) :
    Tracks { w with
      scopes := [] :: w.scopes
      inFunction := scope.isFunction || w.inFunction } (next + 1) ⟨scope :: scopes, none⟩ before where
  scopes := by
    refine .cons (fun name => ?_) h.scopes
    have hfresh : declaredIn before scope name = false :=
      declaredIn_eq_false (hsite ▸ h.known)
    simp [hfresh]
  nodup := by
    refine List.nodup_cons.mpr ⟨fun hmem => ?_, h.nodup⟩
    exact Nat.lt_irrefl next (hsite ▸ h.used scope hmem)
  initializing := h.initializing
  own := by simp
  inFunction := by
    rw [h.inFunction]
    rfl
  used := by
    intro other hother
    rcases List.mem_cons.mp hother with rfl | hold
    · exact hsite ▸ Nat.lt_succ_self _
    · exact Nat.lt_succ_of_lt (h.used other hold)
  known := fun m hm other hother => Nat.lt_succ_of_lt (h.known m hm other hother)

/-- Out of a scope again. -/
theorem leave {scope : LocalScope} {scopes : List LocalScope}
    (h : w.Tracks next ⟨scope :: scopes, none⟩ before) :
    Tracks { w with
      scopes := w.scopes.tail
      inFunction := (Position.mk scopes none).inFunction } next ⟨scopes, none⟩ before where
  scopes := by
    have hscopes := h.scopes
    generalize w.scopes = names at hscopes ⊢
    cases hscopes with
    | cons _ hrest => exact hrest
  nodup := (List.nodup_cons.mp h.nodup).2
  initializing := h.initializing
  own := by simp
  inFunction := rfl
  used := fun other hother => h.used other (List.mem_cons_of_mem _ hother)
  known := h.known

end Walk.Tracks

/-- A step of the resolver judges the marks `ms` at a position, wherever it begins there. -/
def Resolver.Judges (next next' : Site) (p : Position) (ms : List Mark) (x : Resolver Unit) : Prop :=
  ∀ before (w : Walk), w.Tracks next p before → Judged next' p before ms w (x w)

namespace Resolver.Judges
variable {σ : Type} {F : Forms σ} {a b c : Site} {p : Position} {ms more : List Mark}
  {x y : Resolver Unit} {scopes : List LocalScope}

theorem pure (hle : a ≤ b) : Judges a b p [] (Pure.pure ()) := by
  intro before w h
  refine .ok rfl rfl ?_
  rw [List.append_nil]
  exact h.mono hle

theorem bind (hx : Judges a b p ms x) (hy : Judges b c p more y) :
    Judges a c p (ms ++ more) (x >>= fun _ => y) := by
  intro before w h
  have hfirst := hx before w h
  rw [bind_apply]
  generalize x w = r at hfirst
  cases hfirst with
  | @error e later w' hoffences =>
    have hsplit : Mark.offences before (ms ++ more) =
        e :: (later ++ Mark.offences (before ++ ms) more) := by
      rw [Mark.offences_append, hoffences, List.cons_append]
    exact .error hsplit
  | @ok w' hnone hfound htracks =>
    have hsecond := hy (before ++ ms) w' htracks
    have hsplit : Mark.offences before (ms ++ more) = Mark.offences (before ++ ms) more := by
      rw [Mark.offences_append, hnone, List.nil_append]
    simp only
    generalize y w' = r at hsecond
    cases hsecond with
    | error hoffences => exact .error (hsplit.trans hoffences)
    | ok hnone' hfound' htracks' =>
      refine .ok (hsplit.trans hnone') ?_ (by rwa [← List.append_assoc])
      rw [hfound', hfound, Mark.bindings_append, List.reverse_append, List.append_assoc]

theorem bind_pure (hx : Judges a b p ms x) :
    Judges a b p ms (x >>= fun _ => Pure.pure ()) := by
  have hboth := hx.bind (pure (Nat.le_refl b))
  rwa [List.append_nil] at hboth

theorem mono (hx : Judges a b p ms x) (hle : b ≤ c) : Judges a c p ms x := by
  intro before w h
  have hjudged := hx before w h
  generalize x w = r at hjudged
  cases hjudged with
  | error hoffences => exact .error hoffences
  | ok hnone hfound htracks => exact .ok hnone hfound (htracks.mono hle)

theorem declare (name : Token) : Judges a a p [⟨p, .declaration, name⟩] (declare name) := by
  intro before w h
  obtain ⟨names, initializing, inFunction, found⟩ := w
  obtain ⟨scopes, initialized⟩ := p
  have hscopes := h.scopes
  have hknown := h.known_concat (m := ⟨⟨scopes, initialized⟩, .declaration, name⟩) rfl
  cases hscopes with
  | nil =>
    refine .ok rfl rfl { h with known := hknown, scopes := .nil }
  | @cons front scope names scopes hfront hrest =>
    simp only [Resolver.declare, get_bind_apply]
    have hdeclared : front.contains name.lexeme = declaredIn before scope name.lexeme := by
      rw [Bool.eq_iff_iff, List.contains_iff_mem]
      exact hfront name.lexeme
    rw [hdeclared]
    cases hbefore : declaredIn before scope name.lexeme with
    | true =>
      have hoffences : Mark.offences before [⟨⟨scope :: scopes, initialized⟩, .declaration, name⟩] =
          [⟨.declaredTwice, name.line⟩] := by
        simp [Mark.offence?, hbefore]
      exact .error hoffences
    | false =>
      refine .ok ?_ rfl { h with known := hknown, scopes := .cons (fun other => ?_) ?_ }
      · simp [Mark.offence?, hbefore]
      · rw [declaredIn_concat, Bool.or_eq_true, ← hfront other, List.mem_cons, or_comm]
        simp [eq_comm]
      · exact forall₂_declaredIn_concat hrest fun other hother => by
          rintro ⟨⟩
          exact (List.nodup_cons.mp h.nodup).1 hother

/-- A reference is bound to the innermost scope that has declared its name. -/
theorem bindAt (site : Site) (kind : ReferenceKind) (name : Token)
    (hnone : ∀ before, (⟨p, .reference site kind, name⟩ : Mark).offence? before = none) :
    Judges a a p [⟨p, .reference site kind, name⟩] (Resolver.bind site kind name) := by
  intro before w h
  have hfind := h.findScope_eq (m := ⟨p, .reference site kind, name⟩) rfl
  simp only at hfind
  simp only [Resolver.bind, modify_apply, hfind]
  cases hdistance : (⟨p, .reference site kind, name⟩ : Mark).distance? before with
  | none =>
    refine .ok (by simp [hnone]) (by simp [Mark.binding?, hdistance]) ?_
    exact h.reference rfl rfl w.found
  | some distance =>
    refine .ok (by simp [hnone]) ?_ (h.reference rfl rfl _)
    simp [Mark.binding?, hdistance, h.inFunction]

theorem read (site : Site) (name : Token) :
    Judges a a p [⟨p, .reference site .read, name⟩] (read site name) := by
  intro before w h
  have hsame : w.initializing = some name.lexeme ↔ p.initialized = some (name.lexeme, p.scopes) := by
    rw [h.initializing, Option.map_eq_some_iff]
    constructor
    · rintro ⟨⟨other, scopes⟩, hinitialized, rfl⟩
      rw [hinitialized, ← h.own _ hinitialized]
    · intro hinitialized
      exact ⟨_, hinitialized, rfl⟩
  simp only [Resolver.read, get_bind_apply, hsame]
  by_cases hown : p.initialized = some (name.lexeme, p.scopes)
  · have hoffences : Mark.offences before [⟨p, .reference site .read, name⟩] =
        [⟨.ownInitializer, name.line⟩] := by
      simp [Mark.offence?, hown]
    rw [if_pos hown]
    exact .error hoffences
  · rw [if_neg hown]
    exact bindAt site .read name (fun _ => by simp [Mark.offence?, hown]) before w h

/-- A step inside of a scope, which is left behind it. -/
theorem inside {scope : LocalScope} (hsite : scope.site = a)
    (hx : Judges (a + 1) b ⟨scope :: scopes, none⟩ ms x) {before : List Mark} {w : Walk}
    (h : w.Tracks a ⟨scopes, none⟩ before) {leave : Walk → Walk}
    (hleave : ∀ w' : Walk, w'.Tracks b ⟨scope :: scopes, none⟩ (before ++ ms) →
      leave w' = { w' with
        scopes := w'.scopes.tail
        inFunction := (Position.mk scopes none).inFunction }) :
    Judged b ⟨scopes, none⟩ before ms w ((x >>= fun _ => modify leave)
      { w with scopes := [] :: w.scopes, inFunction := scope.isFunction || w.inFunction }) := by
  have hinside := hx before _ (h.enter hsite)
  rw [bind_apply]
  generalize x _ = r at hinside
  cases hinside with
  | error hoffences => exact .error hoffences
  | @ok w' hnone hfound htracks =>
    -- What has been declared inside of the scope stays known, but no position outside looks at it.
    have htracks' := htracks.leave
    rw [← hleave w' htracks] at htracks'
    refine .ok hnone ?_ htracks'
    rw [hleave w' htracks]
    exact hfound

theorem inScope (hx : Judges (a + 1) b ⟨.block a :: scopes, none⟩ ms x) :
    Judges a b ⟨scopes, none⟩ ms (inScope x) :=
  have hsite : (LocalScope.block a).site = a := rfl
  fun _ _ h => inside hsite hx h fun w' htracks => by
    have hout : w'.inFunction = (Position.mk scopes none).inFunction := htracks.inFunction
    rw [← hout]

theorem forM_declare (params : List Token) :
    Judges a a p (params.map (⟨p, .declaration, ·⟩)) (params.forM Resolver.declare) := by
  induction params with
  | nil => exact pure (Nat.le_refl a)
  | cons param params ih => exact (declare param).bind ih

/-- A function is walked through like a block, with its parameters in front of its body. -/
theorem inFunction_apply (params : List Token) (x : Resolver Unit) (w : Walk) :
    Resolver.inFunction params x w =
      ((params.forM Resolver.declare >>= fun _ => x) >>= fun _ => modify fun walk =>
        { walk with scopes := walk.scopes.tail, inFunction := w.inFunction })
      { w with scopes := [] :: w.scopes, inFunction := true } := by
  simp only [Resolver.inFunction, get_bind_apply, Resolver.inScope, modify_bind_apply]
  rw [bind_apply, modify_bind_apply, bind_apply, bind_apply, bind_apply]
  cases params.forM Resolver.declare { w with scopes := [] :: w.scopes, inFunction := true } with
  | error failure t => rfl
  | ok u t =>
    simp only [bind_apply]
    cases x t <;> rfl

theorem inFunction {params : List Token}
    (hx : Judges (a + 1) b ⟨.function a :: scopes, none⟩ ms x) :
    Judges a b ⟨scopes, none⟩
      (params.map (⟨⟨.function a :: scopes, none⟩, .declaration, ·⟩) ++ ms)
      (inFunction params x) := by
  intro before w h
  have hsite : (LocalScope.function a).site = a := rfl
  rw [inFunction_apply]
  exact inside hsite ((forM_declare params).bind hx) h fun w' htracks => by rw [h.inFunction]

/-- Through the initializer of a variable. -/
theorem inInitializer {name : Token}
    (hx : Judges a a ⟨scopes, some (name.lexeme, scopes)⟩ ms x) :
    Judges a a ⟨scopes, none⟩ ms (inInitializer name x) := by
  intro before w h
  have hinside := hx before { w with initializing := some name.lexeme }
    { h with initializing := rfl, own := by rintro v ⟨⟩; rfl }
  simp only [Resolver.inInitializer, modify_bind_apply]
  rw [bind_apply]
  generalize x _ = r at hinside
  cases hinside with
  | error hoffences => exact .error hoffences
  | ok hnone hfound htracks =>
    exact .ok hnone hfound { htracks with initializing := rfl, own := by simp }

/-- The resolver judges the names in an expression. -/
theorem expression (hfaults : ¬F.faults) (depth : Nat) {e : Expr σ} (he : e.Within F)
    (hheight : e.height ≤ depth) (next : Site) :
    Judges a a p ((e.number next).1.marks p) (expression depth (e.number next).1) := by
  induction depth generalizing e next with
  | zero => exact absurd hheight (Nat.not_le.mpr e.height_pos)
  | succ depth ih =>
    cases e with
    | literal value => exact pure (Nat.le_refl a)
    | grouping inner => exact ih (e := inner) he (Nat.le_of_succ_le_succ hheight) next
    | unary operator operand => exact ih (e := operand) he (Nat.le_of_succ_le_succ hheight) next
    | binary left operator right =>
      obtain ⟨hleft, hright⟩ := Nat.max_le.mp (Nat.le_of_succ_le_succ hheight)
      exact (ih he.2.1 hleft _).bind (ih he.2.2 hright _)
    | logical left operator right =>
      obtain ⟨hleft, hright⟩ := Nat.max_le.mp (Nat.le_of_succ_le_succ hheight)
      exact (ih he.1 hleft _).bind (ih he.2 hright _)
    | «variable» site name => exact read next name
    | assignment site name value =>
      exact (ih he.2 (Nat.le_of_succ_le_succ hheight) _).bind (bindAt next _ _ fun _ => rfl)
    | call callee paren arguments =>
      obtain ⟨hcallee, harguments⟩ := Nat.max_le.mp (Nat.le_of_succ_le_succ hheight)
      have hall : ∀ (es : List (Expr σ)) (next : Site), Expr.AllWithin F es →
          Expr.heights es ≤ depth → Judges a a p (Expr.allMarks p (Expr.numberAll es next).1)
            ((Expr.numberAll es next).1.forM (Resolver.expression depth)) := by
        intro es
        induction es with
        | nil => exact fun _ _ _ => pure (Nat.le_refl a)
        | cons e es ihes =>
          intro next hwithin hheights
          obtain ⟨hfirst, hrest⟩ := Nat.max_le.mp hheights
          exact (ih hwithin.1 hfirst _).bind (ihes _ hwithin.2 hrest)
      exact (ih he.1 hcallee _).bind (hall arguments _ he.2 harguments)
    | «foreign» what => exact absurd he hfaults

/-- The resolver judges the names in a statement. -/
theorem statement (hfaults : ¬F.faults) (depth : Nat) {s : Stmt σ} {ending : Prop}
    {scope : Option σ} (hs : s.Within F ending scope) (hheight : s.height ≤ depth) (next : Site) :
    Judges next (s.number next).2 ⟨scopes, none⟩ ((s.number next).1.marks scopes)
      (statement depth (s.number next).1) := by
  induction depth generalizing s ending scope scopes next with
  | zero => exact absurd hheight (Nat.not_le.mpr s.height_pos)
  | succ depth ih =>
    have hvalue : ∀ (e : Expr σ) (next : Site), e.Within F → e.height ≤ depth →
        Judges next (e.number next).2 ⟨scopes, none⟩ ((e.number next).1.marks ⟨scopes, none⟩)
          (Resolver.expression depth (e.number next).1) :=
      fun e next he hheight => (expression hfaults depth he hheight next).mono (e.le_number next)
    have hbody : ∀ (ss : List (Stmt σ)) (ending : Prop) (scope : Option σ)
        (scopes : List LocalScope) (next : Site), Stmt.AllWithin F ending scope ss →
          Stmt.heights ss ≤ depth →
            Judges next (Stmt.numberAll ss next).2 ⟨scopes, none⟩
              (Stmt.allMarks scopes (Stmt.numberAll ss next).1)
              ((Stmt.numberAll ss next).1.forM (Resolver.statement depth)) := by
      intro ss ending scope scopes
      induction ss with
      | nil => exact fun next _ _ => pure (Nat.le_refl next)
      | cons s ss ihss =>
        -- The scopes of a statement behind another one are the same; only the names before it differ.
        intro next hwithin hheights
        obtain ⟨hfirst, hrest⟩ := Nat.max_le.mp hheights
        exact (ih hwithin.1 hfirst next).bind (ihss _ hwithin.2 hrest)
    cases s with
    | expression value | print value | assert _ value =>
      exact hvalue value next hs (Nat.le_of_succ_le_succ hheight)
    | «variable» name initializer =>
      cases initializer with
      | none => exact (declare name).bind (pure (Nat.le_refl next))
      | some initializer =>
        -- No scope is entered in an initializer, so all of it stands where the variable is declared.
        have hinside := expression (a := next)
          (p := ⟨scopes, some (name.lexeme, scopes)⟩) hfaults depth hs.2
          (Nat.le_of_succ_le_succ hheight) next
        exact (declare name).bind ((inInitializer hinside).mono (initializer.le_number next))
    | block site body =>
      exact inScope (hbody body _ _ _ (next + 1) hs (Nat.le_of_succ_le_succ hheight))
    | conditional condition yes no =>
      cases no with
      | none =>
        obtain ⟨hcondition, hyes⟩ := Nat.max_le.mp (Nat.le_of_succ_le_succ hheight)
        exact (hvalue condition next hs.1 hcondition).bind (ih hs.2 hyes _).bind_pure
      | some no =>
        obtain ⟨hcondition, hbranches⟩ := Nat.max_le.mp (Nat.le_of_succ_le_succ hheight)
        obtain ⟨hyes, hno⟩ := Nat.max_le.mp hbranches
        exact (hvalue condition next hs.1 hcondition).bind
          ((ih hs.2.1 hyes _).bind (ih hs.2.2 hno _))
    | loop condition body =>
      obtain ⟨hcondition, hbody⟩ := Nat.max_le.mp (Nat.le_of_succ_le_succ hheight)
      exact (hvalue condition next hs.1 hcondition).bind (ih hs.2 hbody _)
    | function site name params body =>
      have hinside := hbody body _ _ (.function next :: scopes) (next + 1) hs.2.2
        (Nat.le_of_succ_le_succ hheight)
      exact (declare name).bind (inFunction hinside)
    | «return» keyword value =>
      cases value with
      | none => exact pure (Nat.le_refl next)
      | some value => exact hvalue value next hs (Nat.le_of_succ_le_succ hheight)
    | endMarker => exact pure (Nat.le_refl next)
    | «foreign» what => exact absurd hs hfaults

end Resolver.Judges

end Lox
