import Mathlib.Tactic.Lemma

/-!
# Running blocks of steps

The parser, the resolver and the machine are programs over a state that may stop early. This module
says what such a program does when it is applied to a state: sequencing, reading and changing the
state, and stopping. Inversion lemmas take a finished run apart into the runs of its steps.
-/
namespace Lox.Outcome
variable {ε σ α β : Type}

@[simp] theorem pure_apply (a : α) (s : σ) : (pure a : EStateM ε σ α) s = .ok a s := rfl

@[simp] theorem throw_apply (e : ε) (s : σ) : (throw e : EStateM ε σ α) s = .error e s := rfl

@[simp] theorem get_apply (s : σ) : (get : EStateM ε σ σ) s = .ok s s := rfl

@[simp] theorem set_apply (s t : σ) : (set t : EStateM ε σ PUnit) s = .ok ⟨⟩ t := rfl

@[simp] theorem modify_apply (f : σ → σ) (s : σ) :
    (modify f : EStateM ε σ PUnit) s = .ok ⟨⟩ (f s) := rfl

/-- The state that a run leaves, however it ends. -/
def final : EStateM.Result ε σ α → σ
  | .ok _ s | .error _ s => s

/-- What a run gives, if it comes to its end. -/
def answer? : EStateM.Result ε σ α → Option α
  | .ok a _ => some a
  | .error _ _ => none

theorem answer?_eq_some {r : EStateM.Result ε σ α} {a : α} :
    answer? r = some a ↔ ∃ s, r = .ok a s := by
  cases r <;> simp [answer?]

theorem bind_apply (x : EStateM ε σ α) (f : α → EStateM ε σ β) (s : σ) :
    (x >>= f) s = match x s with
      | .ok a t => f a t
      | .error e t => .error e t := rfl

/-- A step that ends is followed by the rest of the block. -/
theorem bind_of_ok {x : EStateM ε σ α} {s t : σ} {a : α} (h : x s = .ok a t)
    (f : α → EStateM ε σ β) : (x >>= f) s = f a t := by
  rw [bind_apply, h]

/-- A step that stops ends the block. -/
theorem bind_of_error {x : EStateM ε σ α} {s t : σ} {e : ε} (h : x s = .error e t)
    (f : α → EStateM ε σ β) : (x >>= f) s = .error e t := by
  rw [bind_apply, h]

@[simp] theorem pure_bind_apply (a : α) (f : α → EStateM ε σ β) (s : σ) :
    (pure a >>= f) s = f a s := rfl

@[simp] theorem get_bind_apply (f : σ → EStateM ε σ β) (s : σ) : (get >>= f) s = f s s := rfl

@[simp] theorem set_bind_apply (f : PUnit → EStateM ε σ β) (s t : σ) :
    ((set t : EStateM ε σ PUnit) >>= f) s = f ⟨⟩ t := rfl

@[simp] theorem modify_bind_apply (g : σ → σ) (f : PUnit → EStateM ε σ β) (s : σ) :
    ((modify g : EStateM ε σ PUnit) >>= f) s = f ⟨⟩ (g s) := rfl

@[simp] theorem throw_bind_apply (e : ε) (f : α → EStateM ε σ β) (s : σ) :
    ((throw e : EStateM ε σ α) >>= f) s = .error e s := rfl

@[simp] theorem map_apply (g : α → β) (x : EStateM ε σ α) (s : σ) :
    (g <$> x) s = match x s with
      | .ok a t => .ok (g a) t
      | .error e t => .error e t := rfl

/-- A block has ended when its first step has, and then the rest of it. -/
theorem bind_eq_ok {x : EStateM ε σ α} {f : α → EStateM ε σ β} {s u : σ} {b : β} :
    (x >>= f) s = .ok b u ↔ ∃ a t, x s = .ok a t ∧ f a t = .ok b u := by
  rw [bind_apply]
  constructor
  · intro h
    cases hx : x s with
    | ok a t => exact ⟨a, t, rfl, by simpa only [hx] using h⟩
    | error e t => rw [hx] at h; cases h
  · rintro ⟨a, t, hx, hf⟩
    rw [hx]
    exact hf

/-- A block has failed when its first step has, or the rest of it. -/
theorem bind_eq_error {x : EStateM ε σ α} {f : α → EStateM ε σ β} {s u : σ} {e : ε} :
    (x >>= f) s = .error e u ↔ x s = .error e u ∨ ∃ a t, x s = .ok a t ∧ f a t = .error e u := by
  rw [bind_apply]
  cases x s with
  | ok a t => simp [and_assoc]
  | error e' t => simp

theorem map_eq_ok {g : α → β} {x : EStateM ε σ α} {s t : σ} {b : β} :
    (g <$> x) s = .ok b t ↔ ∃ a, x s = .ok a t ∧ g a = b := by
  rw [map_apply]
  cases x s with
  | ok a u =>
    constructor
    · intro h
      cases h
      exact ⟨a, rfl, rfl⟩
    · rintro ⟨a, h, rfl⟩
      cases h
      rfl
  | error e u =>
    constructor
    · intro h
      cases h
    · rintro ⟨a, h, -⟩
      cases h

/-- A loop over a list has ended when its first round has, and then the rest of the rounds. -/
theorem forM_cons_eq_ok {γ : Type} {c : γ} {cs : List γ} {f : γ → EStateM ε σ PUnit} {s u : σ} :
    (c :: cs).forM f s = .ok ⟨⟩ u ↔ ∃ t, f c s = .ok ⟨⟩ t ∧ cs.forM f t = .ok ⟨⟩ u := by
  have hcons : (c :: cs).forM f = f c >>= fun _ => cs.forM f := rfl
  rw [hcons, bind_eq_ok]
  exact ⟨fun ⟨_, t, h⟩ => ⟨t, h⟩, fun ⟨t, h⟩ => ⟨⟨⟩, t, h⟩⟩

theorem forM_append_eq_ok {γ : Type} {cs ds : List γ} {f : γ → EStateM ε σ PUnit} {s u : σ} :
    (cs ++ ds).forM f s = .ok ⟨⟩ u ↔ ∃ t, cs.forM f s = .ok ⟨⟩ t ∧ ds.forM f t = .ok ⟨⟩ u := by
  induction cs generalizing s with
  | nil => exact ⟨fun h => ⟨s, rfl, h⟩, fun ⟨_, hnil, h⟩ => by cases hnil; exact h⟩
  | cons c cs ih =>
    rw [List.cons_append, forM_cons_eq_ok]
    simp only [forM_cons_eq_ok, ih]
    constructor
    · rintro ⟨t, hc, t', hcs, hds⟩
      exact ⟨t', ⟨t, hc, hcs⟩, hds⟩
    · rintro ⟨t', ⟨t, hc, hcs⟩, hds⟩
      exact ⟨t, hc, t', hcs, hds⟩

end Lox.Outcome
