import Lox.Proofs.Outcome
import Lox.Proofs.Scoping.Visits

/-!
# What resolving finds

A walk that succeeds has found the bindings of all references, in the order in which they are bound,
and has declared what its statement declares. The table of distances then gives every reference of
the statement the distance of the innermost scope that has declared its name before.
-/
namespace Lox
open Outcome

namespace Walk

/-- The walk with the bindings of further references. -/
def behind (w : Walk) (vs : List Visit) : Walk :=
  { w with found := (vs.filterMap Visit.binding?).reverse ++ w.found }

/-- The walk behind a declaration of names. -/
def declare (w : Walk) (names : List String) : Walk :=
  { w with scopes := declareIn names w.scopes }

/-- What surrounds the place of a walk whose scopes are those of `path`. -/
def around (w : Walk) (path : List Scope) : Surroundings :=
  ⟨path, w.scopes, w.inFunction⟩

@[simp] theorem behind_nil (w : Walk) : w.behind [] = w := rfl

theorem behind_append (w : Walk) (vs more : List Visit) :
    w.behind (vs ++ more) = (w.behind vs).behind more := by
  simp [behind]

@[simp] theorem declare_nil (w : Walk) : w.declare [] = w := by
  simp [declare]

theorem declare_append (w : Walk) (names more : List String) :
    w.declare (names ++ more) = (w.declare names).declare more := by
  simp [declare, declareIn_append]

@[simp] theorem around_behind (w : Walk) (vs : List Visit) (path : List Scope) :
    (w.behind vs).around path = w.around path := rfl

@[simp] theorem around_declare (w : Walk) (names : List String) (path : List Scope) :
    (w.declare names).around path = (w.around path).declare names := rfl

theorem declare_behind (w : Walk) (vs : List Visit) (names : List String) :
    (w.behind vs).declare names = (w.declare names).behind vs := rfl

end Walk

namespace Resolver
variable {depth : Nat} {w w' : Walk}

theorem bind_eq (site : Site) (kind : ReferenceKind) (name : Token) (path : List Scope) (w : Walk) :
    bind site kind name w = .ok () (w.behind [⟨site, kind, name, w.around path⟩]) := by
  simp only [bind, modify_apply, Walk.behind, Walk.around]
  cases hfind : findScope name.lexeme w.scopes <;> simp [List.filterMap, Visit.binding?, hfind]

theorem forM_expression_eq_ok (path : List Scope) {walk : Expr Site → Resolver Unit}
    (hwalk : ∀ {e w w'}, walk e w = .ok () w' → w' = w.behind (e.visits (w.around path)))
    {es : List (Expr Site)} (h : es.forM walk w = .ok () w') :
    w' = w.behind (Expr.allVisits (w.around path) es) := by
  induction es generalizing w with
  | nil => cases h; rfl
  | cons e es ih =>
    obtain ⟨t, h₁, h₂⟩ := forM_cons_eq_ok.mp h
    obtain rfl := hwalk h₁
    rw [ih h₂, Expr.allVisits, Walk.behind_append, Walk.around_behind]

/-- A successful walk through an expression finds its references. -/
theorem expression_eq_ok (path : List Scope) {e : Expr Site}
    (h : expression depth e w = .ok () w') : w' = w.behind (e.visits (w.around path)) := by
  induction depth generalizing e w w' with
  | zero => cases h
  | succ depth ih =>
    cases e with
    | literal value => cases h; rfl
    | grouping inner => exact ih (e := inner) h
    | unary operator operand => exact ih (e := operand) h
    | binary left operator right | logical left operator right =>
      obtain ⟨_, t, hl, hr⟩ := bind_eq_ok.mp h
      obtain rfl := ih hl
      obtain rfl := ih hr
      rw [Expr.visits, Walk.behind_append, Walk.around_behind]
    | «variable» site name =>
      simp only [expression, read, get_bind_apply] at h
      split at h
      · cases h
      · rw [bind_eq site .read name path] at h
        cases h
        rfl
    | assignment site name value =>
      obtain ⟨_, t, hv, hb⟩ := bind_eq_ok.mp h
      obtain rfl := ih hv
      rw [bind_eq site .assignment name path] at hb
      cases hb
      rw [Expr.visits, Walk.behind_append, Walk.around_behind]
    | call callee paren arguments =>
      obtain ⟨_, t, hc, ha⟩ := bind_eq_ok.mp h
      obtain rfl := ih hc
      rw [forM_expression_eq_ok path ih ha, Expr.visits, Walk.behind_append, Walk.around_behind]
    | «foreign» what => cases h

theorem declare_eq_ok {name : Token} (h : declare name w = .ok () w') :
    w' = w.declare [name.lexeme] := by
  obtain ⟨scopes, initializing, inFunction, found⟩ := w
  cases scopes with
  | nil => cases h; rfl
  | cons scope outer =>
    simp only [declare, get_bind_apply] at h
    split at h
    · cases h
    · cases h; rfl

theorem forM_declare_eq_ok {params : List Token} (h : params.forM declare w = .ok () w') :
    w' = w.declare (params.map (·.lexeme)) := by
  induction params generalizing w with
  | nil => cases h; simp
  | cons param params ih =>
    obtain ⟨t, h₁, h₂⟩ := forM_cons_eq_ok.mp h
    obtain rfl := declare_eq_ok h₁
    rw [ih h₂, ← Walk.declare_append, List.map_cons, List.singleton_append]

theorem forM_statement_eq_ok (path : List Scope) {walk : Stmt Site → Resolver Unit}
    (hwalk : ∀ {s w w'}, w.initializing = none → walk s w = .ok () w' →
      w' = (w.declare s.declared).behind (s.visits (w.around path)))
    {ss : List (Stmt Site)} (hinit : w.initializing = none) (h : ss.forM walk w = .ok () w') :
    w' = (w.declare (Stmt.allDeclared ss)).behind (Stmt.allVisits (w.around path) ss) := by
  induction ss generalizing w with
  | nil => cases h; simp [Stmt.allVisits]
  | cons s ss ih =>
    obtain ⟨t, h₁, h₂⟩ := forM_cons_eq_ok.mp h
    obtain rfl := hwalk hinit h₁
    rw [ih (w := (w.declare s.declared).behind _) hinit h₂, Stmt.allVisits, Walk.behind_append, Stmt.allDeclared_cons, Walk.declare_append,
      Walk.declare_behind, Walk.around_behind, Walk.around_declare]

/-- A successful walk through a statement finds its references and makes its declarations. -/
theorem statement_eq_ok (path : List Scope) {s : Stmt Site} (hinit : w.initializing = none)
    (h : statement depth s w = .ok () w') :
    w' = (w.declare s.declared).behind (s.visits (w.around path)) := by
  induction depth generalizing s w w' path with
  | zero => cases h
  | succ depth ih =>
    cases s with
    | expression value | print value | assert _ value =>
      rw [expression_eq_ok path h, Stmt.declared, Walk.declare_nil, Stmt.visits]
    | «variable» name initializer =>
      obtain ⟨_, t, hd, hi⟩ := bind_eq_ok.mp h
      obtain rfl := declare_eq_ok hd
      cases initializer with
      | none => cases hi; rfl
      | some value =>
        simp only [inInitializer, modify_bind_apply] at hi
        obtain ⟨_, t, hv, hm⟩ := bind_eq_ok.mp hi
        obtain rfl := expression_eq_ok path hv
        cases hm
        rw [← hinit]
        rfl
    | block site body =>
      simp only [statement, inScope, modify_bind_apply] at h
      obtain ⟨_, t, hb, hm⟩ := bind_eq_ok.mp h
      obtain rfl := forM_statement_eq_ok (⟨site, [], body⟩ :: path)
        (fun hinit h => ih _ hinit h) (by exact hinit) hb
      cases hm
      rw [Stmt.declared, Walk.declare_nil]
      rfl
    | conditional condition yes no =>
      obtain ⟨_, t, hc, hr⟩ := bind_eq_ok.mp h
      obtain rfl := expression_eq_ok path hc
      obtain ⟨_, t, hy, hn⟩ := bind_eq_ok.mp hr
      obtain rfl := ih (w := w.behind _) path hinit hy
      cases no with
      | none =>
        cases hn
        rw [Stmt.visits, Walk.behind_append, Stmt.declared, Walk.declare_behind, Walk.around_behind]
      | some no =>
        obtain rfl := ih (w := ((w.behind _).declare _).behind _) path hinit hn
        rw [Stmt.visits, Walk.behind_append, Walk.behind_append, Stmt.declared, Walk.declare_append]
        rfl
    | loop condition body =>
      obtain ⟨_, t, hc, hb⟩ := bind_eq_ok.mp h
      obtain rfl := expression_eq_ok path hc
      obtain rfl := ih (w := w.behind _) path hinit hb
      rw [Stmt.visits, Walk.behind_append, Stmt.declared, Walk.declare_behind, Walk.around_behind]
    | function site name params body =>
      obtain ⟨_, t, hd, hf⟩ := bind_eq_ok.mp h
      obtain rfl := declare_eq_ok hd
      simp only [inFunction, get_bind_apply, inScope, modify_bind_apply] at hf
      obtain ⟨_, t, hb, hm⟩ := bind_eq_ok.mp hf
      simp only [modify_bind_apply] at hb
      obtain ⟨_, t, hp, hb⟩ := bind_eq_ok.mp hb
      obtain rfl := forM_declare_eq_ok hp
      obtain ⟨_, t, hb, hr⟩ := bind_eq_ok.mp hb
      obtain rfl := forM_statement_eq_ok (⟨site, params, body⟩ :: path)
        (fun hinit h => ih _ hinit h) (by exact hinit) hb
      cases hr
      cases hm
      rfl
    | «return» keyword value =>
      cases value with
      | none => cases h; rw [Stmt.declared, Walk.declare_nil, Stmt.visits, Walk.behind_nil]
      | some value => rw [expression_eq_ok path h, Stmt.declared, Walk.declare_nil, Stmt.visits]
    | endMarker => cases h; rw [Stmt.declared, Walk.declare_nil, Stmt.visits, Walk.behind_nil]
    | «foreign» what => cases h

end Resolver

/-- A statement that can be resolved can be walked through. -/
theorem Stmt.exists_walk {depth : Nat} {s : Stmt Site} {bindings : List Binding}
    (h : s.resolve depth = (.ok (), bindings)) :
    ∃ walk, Resolver.statement depth s .start = .ok () walk ∧ bindings = walk.found.reverse := by
  unfold Stmt.resolve at h
  split at h
  · rename_i walk hwalk
    cases h
    exact ⟨walk, hwalk, rfl⟩
  · cases h
  · cases h

/-- A statement that can be resolved has the bindings of its references. -/
theorem Stmt.resolve_eq_ok {depth : Nat} {s : Stmt Site} {bindings : List Binding}
    (h : s.resolve depth = (.ok (), bindings)) :
    bindings = (s.visits .outermost).filterMap Visit.binding? := by
  obtain ⟨walk, hwalk, rfl⟩ := s.exists_walk h
  obtain rfl := Resolver.statement_eq_ok [] rfl hwalk
  simp [Walk.behind, Walk.declare, Walk.start, Walk.around, Surroundings.outermost]

namespace Distances
variable {d : Distances} {bs : List Binding} {site : Site}

theorem find?_insert_of_ne {b : Binding} (h : b.site ≠ site) :
    (d.insert b).find? site = d.find? site := by
  have hne : (site == b.site) = false := by simpa using Ne.symm h
  simp only [find?, insert, List.lookup_cons, hne]
  induction d.entries with
  | nil => rfl
  | cons entry entries ih =>
    by_cases hb : entry.1 = b.site
    · rw [List.filter_cons_of_neg (by simpa using hb), ih, List.lookup_cons]
      have hsite : (site == entry.1) = false := by rw [hb]; exact hne
      simp [hsite]
    · rw [List.filter_cons_of_pos (by simpa using hb), List.lookup_cons, List.lookup_cons, ih]

theorem find?_record_of_forall_ne (h : ∀ b ∈ bs, b.site ≠ site) :
    (d.record bs).find? site = d.find? site := by
  induction bs generalizing d with
  | nil => rfl
  | cons b bs ih =>
    rw [record_cons, ih fun c hc => h c (List.mem_cons_of_mem _ hc)]
    exact find?_insert_of_ne (h b List.mem_cons_self)

theorem find?_record_of_mem (hnodup : (bs.map Binding.site).Nodup) {b : Binding} (hb : b ∈ bs) :
    (d.record bs).find? b.site = some b.distance := by
  induction bs generalizing d with
  | nil => cases hb
  | cons c cs ih =>
    rw [List.map_cons, List.nodup_cons] at hnodup
    rcases List.mem_cons.mp hb with rfl | hb
    · rw [record_cons, find?_record_of_forall_ne, find?_insert_self]
      intro c hc heq
      exact hnodup.1 (List.mem_map.mpr ⟨c, hc, heq⟩)
    · exact ih hnodup.2 hb

theorem find?_forget_of_forall_ne (h : ∀ b ∈ bs, b.site ≠ site) :
    (d.forget bs).find? site = d.find? site := by
  simp only [find?, forget]
  induction d.entries with
  | nil => rfl
  | cons entry entries ih =>
    by_cases he : entry.1 = site
    · rw [List.filter_cons_of_pos, List.lookup_cons, List.lookup_cons, ih]
      simpa [he] using h
    · have hne : (site == entry.1) = false := by simpa using Ne.symm he
      rw [List.lookup_cons, hne, ← ih]
      by_cases hb : bs.any (·.site == entry.1)
      · rw [List.filter_cons_of_neg (by simpa using hb)]
      · rw [List.filter_cons_of_pos (by simpa using hb), List.lookup_cons, hne]

theorem find?_forget_eq_none (h : d.find? site = none) : (d.forget bs).find? site = none := by
  obtain ⟨entries⟩ := d
  simp only [find?, forget] at h ⊢
  induction entries with
  | nil => rfl
  | cons entry entries ih =>
    rw [List.lookup_cons] at h
    split at h
    · cases h
    · rename_i hne
      by_cases hb : bs.any (·.site == entry.1)
      · rw [List.filter_cons_of_neg (by simpa using hb)]
        exact ih h
      · rw [List.filter_cons_of_pos (by simpa using hb), List.lookup_cons, hne]
        exact ih h

end Distances

theorem Visit.site_of_binding? {v : Visit} {b : Binding} (h : v.binding? = some b) :
    b.site = v.site := by
  obtain ⟨distance, -, rfl⟩ := Option.map_eq_some_iff.mp h
  rfl

/-- References with different sites have bindings with different sites. -/
theorem nodup_sites_bindings {vs : List Visit} (h : (vs.map Visit.site).Nodup) :
    ((vs.filterMap Visit.binding?).map Binding.site).Nodup := by
  induction vs with
  | nil => exact List.nodup_nil
  | cons v vs ih =>
    rw [List.map_cons, List.nodup_cons] at h
    cases hb : v.binding? with
    | none => rw [List.filterMap_cons_none hb]; exact ih h.2
    | some b =>
      rw [List.filterMap_cons_some hb, List.map_cons, List.nodup_cons, Visit.site_of_binding? hb]
      refine ⟨fun hmem => h.1 ?_, ih h.2⟩
      obtain ⟨c, hc, hsite⟩ := List.mem_map.mp hmem
      obtain ⟨u, hu, huc⟩ := List.mem_filterMap.mp hc
      exact List.mem_map.mpr ⟨u, hu, by rw [← hsite, Visit.site_of_binding? huc]⟩

/-- Once the bindings of new references are recorded, the table has their distances. -/
theorem Distances.find?_record_visits {d : Distances} {vs : List Visit}
    (hnodup : (vs.map Visit.site).Nodup) {v : Visit} (hv : v ∈ vs) (hnew : d.find? v.site = none) :
    (d.record (vs.filterMap Visit.binding?)).find? v.site =
      findScope v.name.lexeme v.around.scopes := by
  cases hscope : findScope v.name.lexeme v.around.scopes with
  | some distance =>
    have hb : v.binding? = some ⟨v.site, v.kind, v.name, distance, v.around.inFunction⟩ := by
      simp [Visit.binding?, hscope]
    exact find?_record_of_mem (nodup_sites_bindings hnodup) (List.mem_filterMap.mpr ⟨v, hv, hb⟩)
  | none =>
    rw [find?_record_of_forall_ne, hnew]
    intro b hb hsite
    obtain ⟨u, hu, hub⟩ := List.mem_filterMap.mp hb
    have huv : u = v := List.inj_on_of_nodup_map hnodup hu hv
      (by rw [← hsite, Visit.site_of_binding? hub])
    subst huv
    simp [Visit.binding?, hscope] at hub

end Lox
