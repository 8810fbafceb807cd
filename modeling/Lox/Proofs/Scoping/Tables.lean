import Lox.Proofs.Outcome
import Lox.Proofs.Scoping.Visits

/-!
# What a walk writes into the table of distances

A walk finds bindings at the sites of its own statement and nowhere else, also when it fails. No two
statements share a site, so taking back what a walk has found restores the table.
-/
namespace Lox
open Outcome

namespace Distances
variable {d : Distances} {bs : List Binding}

/-- Recording changes no entry at another site. -/
theorem filter_record {p : Site × Nat → Bool} (hp : ∀ b ∈ bs, ∀ distance, p (b.site, distance) = false) :
    (d.record bs).entries.filter p = d.entries.filter p := by
  induction bs generalizing d with
  | nil => rfl
  | cons b bs ih =>
    rw [record_cons, ih fun c hc => hp c (List.mem_cons_of_mem _ hc)]
    have hb : ∀ entry : Site × Nat, p entry = true → (entry.1 != b.site) = true := by
      rintro ⟨site, distance⟩ hentry
      refine bne_iff_ne.mpr fun heq => ?_
      rw [show site = b.site from heq, hp b List.mem_cons_self distance] at hentry
      cases hentry
    simp only [insert]
    rw [List.filter_cons_of_neg (by simp [hp b List.mem_cons_self]), List.filter_filter]
    refine List.filter_congr fun entry _ => ?_
    cases hentry : p entry with
    | false => rfl
    | true => rw [hb entry hentry, Bool.and_self]

/-- Forgetting what has been recorded at new sites restores the table. -/
theorem forget_record (hnew : ∀ b ∈ bs, ∀ entry ∈ d.entries, entry.1 ≠ b.site) :
    (d.record bs).forget bs = d := by
  obtain ⟨entries⟩ := d
  refine congrArg Distances.mk ?_
  rw [filter_record fun b hb _ => by simpa using ⟨b, hb, rfl⟩, List.filter_eq_self]
  intro entry hentry
  simpa using fun b hb heq => hnew b hb entry hentry heq.symm

theorem forget_reverse (d : Distances) (bs : List Binding) : d.forget bs.reverse = d.forget bs := by
  simp [forget]

theorem mem_entries_of_mem_forget {entry : Site × Nat} (h : entry ∈ (d.forget bs).entries) :
    entry ∈ d.entries :=
  List.mem_of_mem_filter h

/-- What stands in a table has stood in it before or has been recorded. -/
theorem mem_entries_of_mem_record {entry : Site × Nat} (h : entry ∈ (d.record bs).entries) :
    entry ∈ d.entries ∨ ∃ b ∈ bs, entry.1 = b.site := by
  induction bs generalizing d with
  | nil => exact .inl h
  | cons b bs ih =>
    rcases ih h with hinsert | ⟨c, hc, heq⟩
    · rcases List.mem_cons.mp hinsert with rfl | hentry
      · exact .inr ⟨b, List.mem_cons_self, rfl⟩
      · exact .inl (List.mem_of_mem_filter hentry)
    · exact .inr ⟨c, List.mem_cons_of_mem _ hc, heq⟩

end Distances

/-- A statement of a list, in the surroundings in which it stands there. -/
theorem Stmt.exists_visits {s : Stmt Site} {ss : List (Stmt Site)} (h : s ∈ ss)
    (around : Surroundings) :
    ∃ place, ∀ v ∈ s.visits place, v ∈ Stmt.allVisits around ss := by
  induction ss generalizing around with
  | nil => cases h
  | cons first ss ih =>
    rcases List.mem_cons.mp h with rfl | h
    · exact ⟨around, fun v hv => List.mem_append_left _ hv⟩
    · obtain ⟨place, hplace⟩ := ih h (around.declare first.declared)
      exact ⟨place, fun v hv => List.mem_append_right _ (hplace v hv)⟩

namespace Resolver
variable {P : Site → Prop} {depth : Nat}

/-- Steps of a walk that find bindings only at sites with `P`, however they end. -/
def FindsAt (P : Site → Prop) (x : Resolver Unit) : Prop :=
  ∀ w, ∀ b ∈ (final (x w)).found, b ∈ w.found ∨ P b.site

namespace FindsAt
variable {x y : Resolver Unit}

theorem fail (cause : ResolutionError.Cause) (line : Option Int) : FindsAt P (fail cause line) :=
  fun _ _ hb => .inl hb

theorem pure : FindsAt P (Pure.pure ()) := fun _ _ hb => .inl hb

theorem modify (g : Walk → Walk) (hg : ∀ w, (g w).found = w.found) : FindsAt P (modify g) := by
  intro w b hb
  rw [modify_apply, final, hg] at hb
  exact .inl hb

theorem bind (hx : FindsAt P x) (hy : FindsAt P y) : FindsAt P (x >>= fun _ => y) := by
  intro w b hb
  have hfirst := hx w
  rw [bind_apply] at hb
  cases hrun : x w with
  | error failure t =>
    rw [hrun] at hb hfirst
    exact hfirst b hb
  | ok u t =>
    rw [hrun] at hb hfirst
    exact (hy t b hb).elim (hfirst b) .inr

theorem get_bind {g : Walk → Resolver Unit} (hg : ∀ w, FindsAt P (g w)) :
    FindsAt P (get >>= g) :=
  fun w => hg w w

theorem forM {α : Type} {g : α → Resolver Unit} {as : List α} (h : ∀ a ∈ as, FindsAt P (g a)) :
    FindsAt P (as.forM g) := by
  induction as with
  | nil => exact pure
  | cons a as ih =>
    exact (h a List.mem_cons_self).bind (ih fun b hb => h b (List.mem_cons_of_mem _ hb))

theorem declare (name : Token) : FindsAt P (declare name) := by
  intro w b hb
  obtain ⟨scopes, initializing, inFunction, found⟩ := w
  cases scopes with
  | nil => exact .inl hb
  | cons scope outer =>
    simp only [Resolver.declare, get_bind_apply] at hb
    split at hb
    · exact .inl hb
    · exact .inl hb

theorem inScope (h : FindsAt P x) : FindsAt P (inScope x) := by
  refine (modify _ ?_).bind (h.bind (modify _ ?_)) <;> exact fun _ => rfl

theorem inInitializer (name : Token) (h : FindsAt P x) : FindsAt P (inInitializer name x) := by
  refine (modify _ ?_).bind (h.bind (modify _ ?_)) <;> exact fun _ => rfl

theorem inFunction (params : List Token) (h : FindsAt P x) : FindsAt P (inFunction params x) := by
  refine get_bind fun w => inScope ?_
  refine (modify _ ?_).bind ((forM fun param _ => declare param).bind (h.bind (modify _ ?_))) <;>
    exact fun _ => rfl

theorem bindAt {site : Site} (hsite : P site) (kind : ReferenceKind) (name : Token) :
    FindsAt P (Resolver.bind site kind name) := by
  intro w b hb
  rw [Resolver.bind, modify_apply, final] at hb
  split at hb
  · exact .inl hb
  · rcases List.mem_cons.mp hb with rfl | hb
    · exact .inr hsite
    · exact .inl hb

theorem read {site : Site} (hsite : P site) (name : Token) : FindsAt P (read site name) := by
  refine get_bind fun w => ?_
  split
  · exact fail _ _
  · exact bindAt hsite _ _

/-- An expression is bound at its own sites. -/
theorem expression (depth : Nat) {e : Expr Site} {around : Surroundings}
    (h : ∀ v ∈ e.visits around, P v.site) : FindsAt P (expression depth e) := by
  induction depth generalizing e with
  | zero => exact fail _ _
  | succ depth ih =>
    cases e with
    | literal value => exact pure
    | grouping inner => exact ih (e := inner) h
    | unary operator operand => exact ih (e := operand) h
    | binary left operator right | logical left operator right =>
      exact (ih fun v hv => h v (List.mem_append_left _ hv)).bind
        (ih fun v hv => h v (List.mem_append_right _ hv))
    | «variable» site name => exact read (h _ (List.mem_singleton.mpr rfl)) name
    | assignment site name value =>
      have hsite : P site := h _ (List.mem_append_right _ (List.mem_singleton.mpr rfl))
      exact (ih fun v hv => h v (List.mem_append_left _ hv)).bind (bindAt hsite _ _)
    | call callee paren arguments =>
      refine (ih fun v hv => h v (List.mem_append_left _ hv)).bind (forM fun e he => ?_)
      exact ih fun v hv => h v (List.mem_append_right _ (Expr.mem_allVisits he hv))
    | «foreign» what => exact fun _ _ hb => .inl hb

/-- A statement is bound at its own sites. -/
theorem statement (depth : Nat) {s : Stmt Site} {around : Surroundings}
    (h : ∀ v ∈ s.visits around, P v.site) : FindsAt P (statement depth s) := by
  induction depth generalizing s around with
  | zero => exact fail _ _
  | succ depth ih =>
    have hbody : ∀ {place : Surroundings} {body : List (Stmt Site)},
        (∀ v ∈ Stmt.allVisits place body, P v.site) →
          FindsAt P (body.forM (Resolver.statement depth)) := by
      intro place body hall
      refine forM fun s hs => ?_
      obtain ⟨inside, hinside⟩ := Stmt.exists_visits hs place
      exact ih fun v hv => hall v (hinside v hv)
    cases s with
    | expression value | print value | assert _ value => exact expression depth h
    | «variable» name initializer =>
      cases initializer with
      | none => exact (declare name).bind pure
      | some initializer => exact (declare name).bind (inInitializer name (expression depth h))
    | block site body => exact inScope (hbody h)
    | conditional condition yes no =>
      cases no with
      | none =>
        exact (expression depth fun v hv => h v (List.mem_append_left _ hv)).bind
          ((ih fun v hv => h v (List.mem_append_right _ hv)).bind pure)
      | some no =>
        have hcondition : FindsAt P (Resolver.expression depth condition) :=
          expression depth fun v hv => h v (List.mem_append_left _ (List.mem_append_left _ hv))
        have hyes : FindsAt P (Resolver.statement depth yes) :=
          ih fun v hv => h v (List.mem_append_left _ (List.mem_append_right _ hv))
        exact hcondition.bind (hyes.bind (ih fun v hv => h v (List.mem_append_right _ hv)))
    | loop condition body =>
      exact (expression depth fun v hv => h v (List.mem_append_left _ hv)).bind
        (ih fun v hv => h v (List.mem_append_right _ hv))
    | function site name params body => exact (declare name).bind (inFunction params (hbody h))
    | «return» keyword value =>
      cases value with
      | none => exact pure
      | some value => exact expression depth h
    | endMarker => exact pure
    | «foreign» what => exact fun _ _ hb => .inl hb

/-- A statement that has just been numbered is bound at its numbers. -/
theorem statement_number {σ : Type} (depth : Nat) (s : Stmt σ) (next : Site) :
    FindsAt (fun site => next ≤ site ∧ site < (s.number next).2)
      (Resolver.statement depth (s.number next).1) :=
  have hfresh := s.fresh_number .outermost next
  statement depth fun v hv => ⟨hfresh.lower v hv, hfresh.upper v hv⟩

end FindsAt

end Resolver

end Lox
