import Lox.Proofs.Respelling.Carrying
import Lox.Proofs.Scoping.Resolution

/-!
# Resolving in another spelling

When references are spelled like the declarations they belong to, and no two names are made one,
resolving a statement in another spelling finds the same bindings, or fails at the same place. A walk
along the other text is the first walk with the names of its scopes in the other spelling.
-/
namespace Lox
open Outcome

/-- A reference is spelled like the declaration that it belongs to. -/
def Visit.Spelled (ρ : Respelling Site) (v : Visit) : Prop :=
  ρ.reference v.site v.name.lexeme = ρ.declared v.home v.name.lexeme

/-- All references of a statement are spelled like their declarations. -/
def Stmt.Spelled (ρ : Respelling Site) (s : Stmt Site) : Prop :=
  ∀ v ∈ s.visits .outermost, v.Spelled ρ

/-- No two names are made one, and functions keep their names. -/
structure Respelling.Proper (ρ : Respelling Site) (F : Forms Site) : Prop where
  injective : ∀ {scope other : Option Site} {a b : String}, F.name a → F.name b →
    ρ.declared scope a = ρ.declared other b → a = b
  function : ∀ {scope : Option Site} {name : String}, F.function scope name →
    ρ.declared scope name = name

theorem Stmt.allVisits_append (around : Surroundings) (front back : List (Stmt Site)) :
    Stmt.allVisits around (front ++ back) = Stmt.allVisits around front ++
      Stmt.allVisits (around.declare (Stmt.allDeclared front)) back := by
  induction front generalizing around with
  | nil => simp [Stmt.allVisits]
  | cons s front ih =>
    rw [List.cons_append, Stmt.allVisits, ih, Stmt.allVisits, Stmt.allDeclared_cons,
      Surroundings.declare_append, List.append_assoc]

/-- A binding in another spelling: only the name differs. -/
def Binding.respell (ρ : Respelling Site) (b : Binding) : Binding :=
  { b with name := ρ.referring b.site b.name }

/-- The same failure on the other line. -/
def ResolutionFailure.respell (ρ : Respelling Site) : ResolutionFailure → ResolutionFailure
  | .error e => .error { e with line := e.line.map ρ.line }
  | .fault f => .fault f

/-- The names that a statement declares are among its names. -/
theorem Stmt.Within.name_of_mem_declared {F : Forms Site} {ending : Prop} {name : String} :
    ∀ {s : Stmt Site} {scope : Option Site}, s.Within F ending scope → name ∈ s.declared → F.name name
  | .variable _ none, _, h, hn => by rw [List.mem_singleton.mp hn]; exact h
  | .variable _ (some _), _, h, hn => by rw [List.mem_singleton.mp hn]; exact h.1
  | .function _ _ _ _, _, h, hn => by rw [List.mem_singleton.mp hn]; exact h.1.1
  | .conditional _ yes none, _, h, hn => Stmt.Within.name_of_mem_declared (s := yes) h.2 hn
  | .conditional _ yes (some no), _, h, hn =>
    (List.mem_append.mp hn).elim (Stmt.Within.name_of_mem_declared (s := yes) h.2.1)
      (Stmt.Within.name_of_mem_declared (s := no) h.2.2)
  | .loop _ body, _, h, hn => Stmt.Within.name_of_mem_declared (s := body) h.2 hn
  | .expression _, _, _, hn | .print _, _, _, hn | .assert _ _, _, _, hn | .block _ _, _, _, hn
  | .return _ _, _, _, hn | .endMarker, _, _, hn | .foreign _, _, _, hn => by cases hn

namespace Walk

/-- A walk inside some scopes, along a text in another spelling. -/
def respell (ρ : Respelling Site) (path : List Scope) (w : Walk) : Walk where
  scopes := List.zipWith (fun scope names => names.map (ρ.declared (some scope.site))) path w.scopes
  initializing := w.initializing.map (ρ.declared (path.head?.map Scope.site))
  inFunction := w.inFunction
  found := w.found.map (Binding.respell ρ)

/-- A walk inside as many scopes as it knows, which have declared certain names only; a variable that
is being initialized is declared. -/
structure Ready (F : Forms Site) (path : List Scope) (w : Walk) : Prop where
  length : path.length = w.scopes.length
  names : ∀ scope ∈ w.scopes, ∀ name ∈ scope, F.name name
  initializing : ∀ name, w.initializing = some name →
    F.name name ∧ ∀ scope ∈ w.scopes.head?, name ∈ scope

variable {F : Forms Site} {path : List Scope} {w : Walk}

theorem Ready.behind (h : w.Ready F path) (vs : List Visit) : (w.behind vs).Ready F path :=
  ⟨h.length, h.names, h.initializing⟩

theorem Ready.declare (h : w.Ready F path) (names : List String) (hnames : ∀ name ∈ names, F.name name)
    (hinit : w.initializing = none) : (w.declare names).Ready F path where
  length := by simp [Walk.declare, h.length]
  names := by
    obtain ⟨scopes, initializing, inFunction, found⟩ := w
    have hall := h.names
    cases scopes with
    | nil => exact hall
    | cons scope outer =>
      intro other hother name hname
      rcases List.mem_cons.mp hother with rfl | houter
      · rcases List.mem_append.mp hname with hnew | hold
        · exact hnames name (List.mem_reverse.mp hnew)
        · exact hall scope List.mem_cons_self name hold
      · exact hall other (List.mem_cons_of_mem _ houter) name hname
  initializing := by simp [Walk.declare, hinit]

/-- A name in the other spelling is declared by the same scope. -/
theorem findScope_respell {ρ : Respelling Site} (hρ : ρ.Proper F) {name : String} (hname : F.name name) :
    ∀ (path : List Scope) (scopes : List (List String)), path.length = scopes.length →
      (∀ scope ∈ scopes, ∀ other ∈ scope, F.name other) →
        findScope (ρ.declared ((findScope name scopes).bind fun d => path[d]?.map Scope.site) name)
            (List.zipWith (fun scope names => names.map (ρ.declared (some scope.site))) path scopes) =
          findScope name scopes
  | [], [], _, _ => rfl
  | scope :: path, names :: scopes, hlength, hnames => by
    have hrest := findScope_respell hρ hname path scopes (Nat.succ.inj hlength)
      fun scope hscope => hnames scope (List.mem_cons_of_mem _ hscope)
    rw [List.zipWith_cons_cons]
    by_cases hmem : name ∈ names
    · rw [findScope_cons_of_mem _ hmem]
      exact findScope_cons_of_mem _ (List.mem_map_of_mem hmem)
    · have hshift : ((findScope name (names :: scopes)).bind fun d =>
          (scope :: path)[d]?.map Scope.site) =
            (findScope name scopes).bind fun d => path[d]?.map Scope.site := by
        rw [findScope_cons_of_not_mem _ hmem]
        cases findScope name scopes <;> rfl
      have hother : ρ.declared ((findScope name scopes).bind fun d => path[d]?.map Scope.site) name ∉
          names.map (ρ.declared (some scope.site)) := by
        intro hspelled
        obtain ⟨other, hother, heq⟩ := List.mem_map.mp hspelled
        obtain rfl := hρ.injective (hnames names List.mem_cons_self other hother) hname heq
        exact hmem hother
      rw [hshift, findScope_cons_of_not_mem _ hother, hrest, findScope_cons_of_not_mem _ hmem]

end Walk

namespace Resolver
variable {ρ : Respelling Site} {F : Forms Site} {path : List Scope} {depth : Nat} {w : Walk}

/-- A step of the resolver has succeeded, and so has the other one, which has become the same walk
in the other spelling; or both have failed at the same place. -/
def Respelled (ρ : Respelling Site) (path : List Scope) :
    EStateM.Result ResolutionFailure Walk Unit → EStateM.Result ResolutionFailure Walk Unit → Prop
  | .ok _ w, other => other = .ok () (w.respell ρ path)
  | .error failure _, other => ∃ w, other = .error (failure.respell ρ) w

namespace Respelled

theorem bind {x y : Resolver Unit} {f g : Unit → Resolver Unit} {v : Walk}
    (hx : Respelled ρ path (x w) (y v))
    (hf : ∀ w', x w = .ok () w' → Respelled ρ path (f () w') (g () (w'.respell ρ path))) :
    Respelled ρ path ((x >>= f) w) ((y >>= g) v) := by
  rw [bind_apply, bind_apply]
  cases hrun : x w with
  | ok u w' =>
    rw [hrun] at hx
    rw [show y v = _ from hx]
    exact hf w' hrun
  | error failure w' =>
    rw [hrun] at hx
    obtain ⟨v', hv'⟩ := hx
    rw [hv']
    exact ⟨v', rfl⟩

theorem forM {α : Type} {f g : α → Resolver Unit} {h : α → α} :
    ∀ {as : List α} {w : Walk}, (∀ front a back w', as = front ++ a :: back →
      front.forM f w = .ok () w' → Respelled ρ path (f a w') (g (h a) (w'.respell ρ path))) →
        Respelled ρ path (as.forM f w) ((as.map h).forM g (w.respell ρ path))
  | [], _, _ => rfl
  | a :: as, w, hstep => by
    refine Respelled.bind (x := f a) (y := g (h a)) (hstep [] a as w rfl rfl) fun w' hw' => ?_
    refine forM fun front b back w'' has hfront => ?_
    refine hstep (a :: front) b back w'' (by rw [has]; rfl) ?_
    exact forM_cons_eq_ok.mpr ⟨w', hw', hfront⟩

end Respelled

theorem bind_respelled (hρ : ρ.Proper F) (hw : w.Ready F path) (site : Site) (kind : ReferenceKind)
    {name : Token} (hname : F.name name.lexeme)
    (hv : (⟨site, kind, name, w.around path⟩ : Visit).Spelled ρ) :
    Respelled ρ path (bind site kind name w)
      (bind site kind (ρ.referring site name) (w.respell ρ path)) := by
  have hfind : findScope (ρ.referring site name).lexeme (w.respell ρ path).scopes =
      findScope name.lexeme w.scopes := by
    rw [Respelling.referring_lexeme, show ρ.reference site name.lexeme = _ from hv]
    exact Walk.findScope_respell hρ hname path w.scopes hw.length hw.names
  simp only [bind, modify_apply, hfind]
  cases findScope name.lexeme w.scopes <;> rfl

/-- A reference is inside its own initializer in both spellings, or in neither. -/
theorem read_respelled (hρ : ρ.Proper F) (hw : w.Ready F path) (site : Site) {name : Token}
    (hname : F.name name.lexeme) (hv : (⟨site, .read, name, w.around path⟩ : Visit).Spelled ρ) :
    Respelled ρ path (read site name w)
      (read site (ρ.referring site name) (w.respell ρ path)) := by
  have hown : (w.respell ρ path).initializing = some (ρ.referring site name).lexeme ↔
      w.initializing = some name.lexeme := by
    rw [Respelling.referring_lexeme, show ρ.reference site name.lexeme = _ from hv]
    constructor
    · intro h
      obtain ⟨other, hother, heq⟩ := Option.map_eq_some_iff.mp h
      rw [hother, hρ.injective (hw.initializing other hother).1 hname heq]
    · intro h
      obtain ⟨-, hdeclared⟩ := hw.initializing _ h
      have hhome : Visit.home ⟨site, .read, name, w.around path⟩ = path.head?.map Scope.site := by
        have hlength := hw.length
        obtain ⟨scopes, initializing, inFunction, found⟩ := w
        cases scopes with
        | nil =>
          obtain rfl : path = [] := List.eq_nil_of_length_eq_zero hlength
          rfl
        | cons scope outer =>
          cases path with
          | nil => cases hlength
          | cons first path =>
            simp only [Visit.home, Walk.around]
            rw [findScope_cons_of_mem _ (hdeclared scope rfl)]
            rfl
      rw [Walk.respell, h, hhome]
      rfl
  simp only [read, get_bind_apply, hown]
  split
  · exact ⟨_, rfl⟩
  · exact bind_respelled hρ hw site .read hname hv

/-- Resolving an expression in another spelling. -/
theorem expression_respelled (hρ : ρ.Proper F) {e : Expr Site} (hw : w.Ready F path)
    (he : e.Within F) (hv : ∀ v ∈ e.visits (w.around path), v.Spelled ρ) :
    Respelled ρ path (expression depth e w)
      (expression depth (e.respell ρ) (w.respell ρ path)) := by
  induction depth generalizing e w with
  | zero => exact ⟨_, rfl⟩
  | succ depth ih =>
    cases e with
    | literal value => rfl
    | grouping inner => exact ih (e := inner) hw he hv
    | unary operator operand => exact ih (e := operand) hw he hv
    | binary left operator right =>
      refine Respelled.bind (ih hw he.2.1 fun v h => hv v (List.mem_append_left _ h)) fun w' hw' => ?_
      obtain rfl := expression_eq_ok path hw'
      exact ih (hw.behind _) he.2.2 fun v h => hv v (List.mem_append_right _ h)
    | logical left operator right =>
      refine Respelled.bind (ih hw he.1 fun v h => hv v (List.mem_append_left _ h)) fun w' hw' => ?_
      obtain rfl := expression_eq_ok path hw'
      exact ih (hw.behind _) he.2 fun v h => hv v (List.mem_append_right _ h)
    | «variable» site name => exact read_respelled hρ hw site he (hv _ List.mem_cons_self)
    | assignment site name value =>
      refine Respelled.bind (ih hw he.2 fun v h => hv v (List.mem_append_left _ h)) fun w' hw' => ?_
      obtain rfl := expression_eq_ok path hw'
      exact bind_respelled hρ (hw.behind _) site .assignment he.1
        (hv _ (List.mem_append_right _ List.mem_cons_self))
    | call callee paren arguments =>
      refine Respelled.bind (ih hw he.1 fun v h => hv v (List.mem_append_left _ h)) fun w' hw' => ?_
      obtain rfl := expression_eq_ok path hw'
      rw [Expr.respellAll_eq_map]
      refine Respelled.forM fun front argument back w'' heq hfront => ?_
      have hmem : argument ∈ arguments := by rw [heq]; simp
      rw [forM_expression_eq_ok path (fun h => expression_eq_ok path h) hfront]
      exact ih ((hw.behind _).behind _) (Expr.allWithin_iff.mp he.2 argument hmem) fun v h =>
        hv v (List.mem_append_right _ (Expr.mem_allVisits hmem h))
    | «foreign» what => exact ⟨_, rfl⟩

/-- A scope declares a name twice in both spellings, or in neither. -/
theorem declare_respelled (hρ : ρ.Proper F) (hw : w.Ready F path) {name other : Token}
    (hname : F.name name.lexeme) (hinit : w.initializing = none)
    (hother : other.lexeme = ρ.declared (path.head?.map Scope.site) name.lexeme)
    (hline : other.line = ρ.line name.line) :
    Respelled ρ path (declare name w) (declare other (w.respell ρ path)) := by
  have hlength := hw.length
  have hnames := hw.names
  obtain ⟨scopes, initializing, inFunction, found⟩ := w
  cases scopes with
  | nil =>
    obtain rfl : path = [] := List.eq_nil_of_length_eq_zero hlength
    rfl
  | cons scope outer =>
    cases path with
    | nil => cases hlength
    | cons first path =>
      have hsame : (scope.map (ρ.declared (some first.site))).contains other.lexeme =
          scope.contains name.lexeme := by
        rw [Bool.eq_iff_iff, List.contains_iff_mem, List.contains_iff_mem, hother]
        constructor
        · intro h
          obtain ⟨declared, hmem, heq⟩ := List.mem_map.mp h
          rwa [← hρ.injective (hnames scope List.mem_cons_self declared hmem) hname heq]
        · exact List.mem_map_of_mem
      simp only [declare, get_bind_apply, Walk.respell, List.zipWith_cons_cons, hsame]
      split
      · rw [hline]
        exact ⟨_, rfl⟩
      · show _ = _
        rw [hother]
        rfl

/-- Statements one after the other. -/
theorem forM_statement_respelled {walk walk' : Stmt Site → Resolver Unit} {ss : List (Stmt Site)}
    {respell : Stmt Site → Stmt Site} (hw : w.Ready F path) (hinit : w.initializing = none)
    (hok : ∀ {s w w'}, w.initializing = none → walk s w = .ok () w' →
      w' = (w.declare s.declared).behind (s.visits (w.around path)))
    (hdeclared : ∀ s ∈ ss, ∀ name ∈ s.declared, F.name name)
    (hv : ∀ v ∈ Stmt.allVisits (w.around path) ss, v.Spelled ρ)
    (hwalk : ∀ s ∈ ss, ∀ w : Walk, w.Ready F path → w.initializing = none →
      (∀ v ∈ s.visits (w.around path), v.Spelled ρ) →
        Respelled ρ path (walk s w) (walk' (respell s) (w.respell ρ path))) :
    Respelled ρ path (ss.forM walk w) ((ss.map respell).forM walk' (w.respell ρ path)) := by
  refine Respelled.forM fun front s back w' heq hfront => ?_
  have hmem : s ∈ ss := by rw [heq]; simp
  have hvs : ∀ v ∈ s.visits ((w.around path).declare (Stmt.allDeclared front)), v.Spelled ρ := by
    intro v h
    refine hv v ?_
    rw [heq, Stmt.allVisits_append]
    exact List.mem_append_right _ (List.mem_append_left _ h)
  have hnames : ∀ name ∈ Stmt.allDeclared front, F.name name := by
    intro name hname
    obtain ⟨other, hother, hn⟩ := List.mem_flatMap.mp hname
    exact hdeclared other (by rw [heq]; exact List.mem_append_left _ hother) name hn
  obtain rfl := forM_statement_eq_ok path hok hinit hfront
  exact hwalk s hmem _ ((hw.declare _ hnames hinit).behind _) hinit hvs

theorem inInitializer_respelled {x y : Resolver Unit} {name other : Token}
    (hother : other.lexeme = ρ.declared (path.head?.map Scope.site) name.lexeme)
    (hx : Respelled ρ path (x { w with initializing := some name.lexeme })
      (y (Walk.respell ρ path { w with initializing := some name.lexeme }))) :
    Respelled ρ path (inInitializer name x w) (inInitializer other y (w.respell ρ path)) := by
  have hstart : { w.respell ρ path with initializing := some other.lexeme } =
      Walk.respell ρ path { w with initializing := some name.lexeme } := by
    rw [hother]
    rfl
  simp only [inInitializer, modify_bind_apply, hstart]
  exact Respelled.bind hx fun w' _ => rfl

theorem inScope_respelled (scope : Scope) {x y : Resolver Unit} (hinit : w.initializing = none)
    (hend : ∀ w', x { w with scopes := [] :: w.scopes } = .ok () w' → w'.initializing = none)
    (hx : Respelled ρ (scope :: path) (x { w with scopes := [] :: w.scopes })
      (y (Walk.respell ρ (scope :: path) { w with scopes := [] :: w.scopes }))) :
    Respelled ρ path (inScope x w) (inScope y (w.respell ρ path)) := by
  have hstart : { w.respell ρ path with scopes := [] :: (w.respell ρ path).scopes } =
      Walk.respell ρ (scope :: path) { w with scopes := [] :: w.scopes } := by
    simp [Walk.respell, hinit]
  simp only [inScope, modify_bind_apply, hstart]
  rw [bind_apply, bind_apply]
  cases hrun : x { w with scopes := [] :: w.scopes } with
  | error failure w' =>
    rw [hrun] at hx
    obtain ⟨v, hv⟩ := hx
    rw [hv]
    exact ⟨v, rfl⟩
  | ok u w' =>
    rw [hrun] at hx
    rw [show y _ = _ from hx]
    have hnone := hend w' hrun
    obtain ⟨scopes, initializing, inFunction, found⟩ := w'
    subst hnone
    cases scopes <;> simp [Respelled, Walk.respell]

/-- Resolving a statement in another spelling. -/
theorem statement_respelled (hρ : ρ.Proper F) {ending : Prop} {s : Stmt Site} (hw : w.Ready F path)
    (hinit : w.initializing = none) (hs : s.Within F ending (path.head?.map Scope.site))
    (hv : ∀ v ∈ s.visits (w.around path), v.Spelled ρ) :
    Respelled ρ path (statement depth s w)
      (statement depth (s.respell ρ (path.head?.map Scope.site)) (w.respell ρ path)) := by
  induction depth generalizing s w path ending with
  | zero => exact ⟨_, rfl⟩
  | succ depth ih =>
    cases s with
    | expression value | print value | assert _ value => exact expression_respelled hρ hw hs hv
    | «variable» name initializer =>
      cases initializer with
      | none =>
        exact Respelled.bind (declare_respelled hρ hw hs hinit rfl rfl) fun w' _ => rfl
      | some initializer =>
        refine Respelled.bind (declare_respelled hρ hw hs.1 hinit rfl rfl) fun w' hw' => ?_
        obtain rfl := declare_eq_ok hw'
        have hready := hw.declare [name.lexeme] (by simpa using hs.1) hinit
        refine inInitializer_respelled rfl (expression_respelled hρ ⟨hready.length, hready.names, ?_⟩
          hs.2 hv)
        rintro _ ⟨rfl⟩
        refine ⟨hs.1, fun scope hscope => ?_⟩
        obtain ⟨scopes, initializing, inFunction, found⟩ := w
        cases scopes with
        | nil => cases hscope
        | cons first outer =>
          cases hscope
          exact List.mem_cons_self
    | block site body =>
      have hbody := Stmt.allWithin_iff.mp (hs : Stmt.AllWithin F ending (some site) body)
      have hinner : (Walk.mk ([] :: w.scopes) w.initializing w.inFunction w.found).Ready F
          (⟨site, [], body⟩ :: path) :=
        ⟨by simp [hw.length], by simpa using hw.names, by simp [hinit]⟩
      rw [Stmt.respell, Stmt.respellAll_eq_map]
      refine inScope_respelled ⟨site, [], body⟩ hinit (fun w' hw' => ?_) ?_
      · rw [forM_statement_eq_ok (⟨site, [], body⟩ :: path) (fun h => statement_eq_ok _ h)
          (by exact hinit) hw']
        exact hinit
      · exact forM_statement_respelled hinner hinit (fun h => statement_eq_ok _ h)
          (fun s hs name hn => (hbody s hs).name_of_mem_declared hn) hv
          fun s hmem w hw hinit hvs => ih hw hinit (hbody s hmem) hvs
    | conditional condition yes no =>
      cases no with
      | none =>
        refine Respelled.bind (expression_respelled hρ hw hs.1 fun v h =>
          hv v (List.mem_append_left _ h)) fun w' hw' => ?_
        obtain rfl := expression_eq_ok path hw'
        refine Respelled.bind (ih (hw.behind _) hinit hs.2 fun v h =>
          hv v (List.mem_append_right _ h)) fun w' _ => rfl
      | some no =>
        refine Respelled.bind (expression_respelled hρ hw hs.1 fun v h =>
          hv v (List.mem_append_left _ (List.mem_append_left _ h))) fun w' hw' => ?_
        obtain rfl := expression_eq_ok path hw'
        refine Respelled.bind (ih (hw.behind _) hinit hs.2.1 fun v h =>
          hv v (List.mem_append_left _ (List.mem_append_right _ h))) fun w' hw' => ?_
        obtain rfl := statement_eq_ok (w := w.behind _) path hinit hw'
        have hdeclared := (hw.behind (condition.visits (w.around path))).declare _
          (fun name hn => hs.2.1.name_of_mem_declared hn) hinit
        exact ih (hdeclared.behind _) hinit hs.2.2 fun v h => hv v (List.mem_append_right _ h)
    | loop condition body =>
      refine Respelled.bind (expression_respelled hρ hw hs.1 fun v h =>
        hv v (List.mem_append_left _ h)) fun w' hw' => ?_
      obtain rfl := expression_eq_ok path hw'
      exact ih (hw.behind _) hinit hs.2 fun v h => hv v (List.mem_append_right _ h)
    | function site name params body =>
      obtain ⟨⟨hname, hfunction⟩, hparams, hforms⟩ := hs
      have hbody := Stmt.allWithin_iff.mp hforms
      rw [Stmt.respell, Stmt.respellAll_eq_map]
      refine Respelled.bind (declare_respelled hρ hw hname hinit (hρ.function hfunction).symm rfl)
        fun w' hw' => ?_
      obtain rfl := declare_eq_ok hw'
      have hready := hw.declare [name.lexeme] (by simpa using hname) hinit
      simp only [inFunction, get_bind_apply]
      have hinner : (Walk.mk ([] :: (w.declare [name.lexeme]).scopes) w.initializing true
          w.found).Ready F (⟨site, params, body⟩ :: path) :=
        ⟨by simp [hready.length], by simpa using hready.names, by simp [hinit]⟩
      refine inScope_respelled ⟨site, params, body⟩ hinit (fun w' hw' => ?_) ?_
      · simp only [modify_bind_apply] at hw'
        obtain ⟨_, t, hp, hb⟩ := bind_eq_ok.mp hw'
        obtain rfl := forM_declare_eq_ok hp
        obtain ⟨_, t, hb, hr⟩ := bind_eq_ok.mp hb
        obtain rfl := forM_statement_eq_ok (⟨site, params, body⟩ :: path)
          (fun h => statement_eq_ok _ h) (by exact hinit) hb
        cases hr
        exact hinit
      · simp only [modify_bind_apply]
        refine Respelled.bind (Respelled.forM fun front param back w' heq hfront => ?_)
          fun w' hw' => ?_
        · have hmem : param ∈ params := by rw [heq]; simp
          obtain rfl := forM_declare_eq_ok hfront
          refine declare_respelled hρ (hinner.declare _ (fun n hn => ?_) hinit) (hparams param hmem)
            hinit rfl rfl
          obtain ⟨other, hother, rfl⟩ := List.mem_map.mp hn
          exact hparams other (by rw [heq]; exact List.mem_append_left _ hother)
        · obtain rfl := forM_declare_eq_ok hw'
          have hdeclared := hinner.declare (params.map (·.lexeme)) (fun n hn => by
            obtain ⟨param, hparam, rfl⟩ := List.mem_map.mp hn
            exact hparams param hparam) hinit
          refine Respelled.bind (forM_statement_respelled hdeclared hinit
            (fun h => statement_eq_ok _ h) (fun s hs name hn => (hbody s hs).name_of_mem_declared hn)
            hv fun s hmem w hw hinit hvs => ih hw hinit (hbody s hmem) hvs) fun w' _ => rfl
    | «return» keyword value =>
      cases value with
      | none => rfl
      | some value => exact expression_respelled hρ hw hs hv
    | endMarker => rfl
    | «foreign» what => exact ⟨_, rfl⟩

end Resolver

section Resolve
variable {ρ : Respelling Site} {F : Forms Site} {ending : Prop} {s : Stmt Site} {depth : Nat}
  {bindings : List Binding}

theorem Walk.ready_start (F : Forms Site) : Walk.start.Ready F [] :=
  ⟨rfl, by simp [Walk.start], by simp [Walk.start]⟩

/-- A statement in another spelling has the same bindings in the other spelling. -/
theorem Stmt.resolve_respell_of_ok (hρ : ρ.Proper F) (hs : s.Within F ending none)
    (hv : s.Spelled ρ) (h : s.resolve depth = (.ok (), bindings)) :
    (s.respell ρ none).resolve depth = (.ok (), bindings.map (Binding.respell ρ)) := by
  have hwalk : Resolver.Respelled ρ [] (Resolver.statement depth s Walk.start) _ :=
    Resolver.statement_respelled hρ (Walk.ready_start F) rfl hs hv
  obtain ⟨walk, hrun, rfl⟩ := s.exists_walk h
  rw [hrun] at hwalk
  have hother : Resolver.statement depth (s.respell ρ none) Walk.start = _ := hwalk
  simp only [Stmt.resolve, hother, Walk.respell, List.map_reverse]

/-- What cannot be resolved cannot be resolved in another spelling either. -/
theorem Stmt.resolve_respell_of_error (hρ : ρ.Proper F) (hs : s.Within F ending none)
    (hv : s.Spelled ρ) {failure : ResolutionFailure}
    (h : s.resolve depth = (.error failure, bindings)) :
    ∃ others, (s.respell ρ none).resolve depth = (.error (failure.respell ρ), others) := by
  have hwalk : Resolver.Respelled ρ [] (Resolver.statement depth s Walk.start) _ :=
    Resolver.statement_respelled hρ (Walk.ready_start F) rfl hs hv
  unfold Stmt.resolve at h
  cases hrun : Resolver.statement depth s Walk.start with
  | ok u walk =>
    rw [hrun] at h
    cases h
  | error other walk =>
    rw [hrun] at h hwalk
    obtain ⟨walk', hwalk'⟩ := hwalk
    have hother : Resolver.statement depth (s.respell ρ none) Walk.start = _ := hwalk'
    unfold Stmt.resolve
    rw [hother]
    cases other with
    | error e => cases h; exact ⟨_, rfl⟩
    | fault f => cases h; exact ⟨_, rfl⟩

/-- The spelling of the references does not matter for the table. -/
theorem Distances.record_respell (ρ : Respelling Site) (d : Distances) (bindings : List Binding) :
    d.record (bindings.map (Binding.respell ρ)) = d.record bindings := by
  induction bindings generalizing d with
  | nil => rfl
  | cons b bindings ih => rw [List.map_cons, record_cons, record_cons, ih]; rfl

theorem transient_respell (ρ : Respelling Site) (bindings : List Binding) :
    transient (bindings.map (Binding.respell ρ)) = (transient bindings).map (Binding.respell ρ) :=
  List.filter_map

theorem Distances.forget_respell (ρ : Respelling Site) (d : Distances) (bindings : List Binding) :
    d.forget (bindings.map (Binding.respell ρ)) = d.forget bindings := by
  simp only [forget, List.any_map]
  rfl

end Resolve

end Lox
