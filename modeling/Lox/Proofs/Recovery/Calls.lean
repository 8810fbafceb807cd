import Lox.Proofs.Recovery.Statements

/-!
# Calls that end

A parser is called for one statement after the other, and follows the procedure of reading a
statement each time. Every call ends, with a statement or an error. Before the end of the input it
takes a token or a lexical error, so after so many calls there is nothing but the end. A driver that
is left at the end of the input makes only so many calls.
-/
namespace Lox
open Outcome Buffer

theorem Buffer.Raised.ofError_injective : Function.Injective ofError := by
  intro error error' h
  cases error <;> cases error' <;> cases h <;> rfl

variable {p : Procedure (Stmt Unit)} {b b' b'' : Buffer} {s : TokenStream} {depth : Nat}
  {item item' : Except Raised (Stmt Unit)} {items items' : List (Except Raised (Stmt Unit))}

namespace Procedure

/-- A call of a parser: it follows its procedure to the end, and synchronizes if that has failed. The
call gives a statement or the error that it raises. -/
inductive Call (p : Procedure (Stmt Unit)) (b : Buffer) : Except Raised (Stmt Unit) → Buffer → Prop where
  | ends {r : EStateM.Result Raised Buffer (Stmt Unit)} (h : p.Runs b r) :
    Call p b (outcome (settle r)) (final (settle r))

/-- Calls of a parser one after the other. -/
inductive Calls (p : Procedure (Stmt Unit)) :
    Buffer → List (Except Raised (Stmt Unit)) → Buffer → Prop where
  | nil {b : Buffer} : Calls p b [] b
  | cons {b b' b'' : Buffer} {item : Except Raised (Stmt Unit)}
    {items : List (Except Raised (Stmt Unit))} (h : p.Call b item b') (hrest : Calls p b' items b'') :
    Calls p b (item :: items) b''

/-- A call ends in one way only. -/
theorem Call.unique (h : p.Call b item b') (h' : p.Call b item' b'') : item = item' ∧ b' = b'' := by
  obtain ⟨hrun⟩ := h
  obtain ⟨hrun'⟩ := h'
  cases hrun.unique hrun'
  exact ⟨rfl, rfl⟩

/-- So many calls end in one way only. -/
theorem Calls.unique (h : p.Calls b items b') (h' : p.Calls b items' b'')
    (hlength : items.length = items'.length) : items = items' ∧ b' = b'' := by
  induction h generalizing items' b'' with
  | nil =>
    cases h' with
    | nil => exact ⟨rfl, rfl⟩
    | cons => cases hlength
  | cons hcall _ ih =>
    cases h' with
    | nil => cases hlength
    | cons hcall' hrest' =>
      obtain ⟨rfl, rfl⟩ := hcall.unique hcall'
      obtain ⟨rfl, rfl⟩ := ih hrest' (Nat.succ.inj hlength)
      exact ⟨rfl, rfl⟩

end Procedure

theorem mapError_ofError_injective : Function.Injective
    fun item : Item => item.mapError Raised.ofError := by
  intro item item' h
  match item, item' with
  | .ok _, .ok _ => exact congrArg Except.ok (Except.ok.inj h)
  | .error _, .error _ => exact congrArg Except.error (Raised.ofError_injective (Except.error.inj h))
  | .ok _, .error _ | .error _, .ok _ => cases h

namespace Procedure

section Driving
variable {ε S σ α : Type} {handle : σ → Item → EStateM ε S (α ⊕ σ)} {x : σ} {t : S}
  {r r' : EStateM.Result ε S α}

/-- A driver without a bound: it calls a parser and handles what the call gives, over and over, until
it has an answer. This is how it ends, if it ends. -/
inductive Drives (p : Procedure (Stmt Unit)) (handle : σ → Item → EStateM ε S (α ⊕ σ)) :
    Buffer → σ → S → EStateM.Result ε S α → Prop where
  | stops {b b' : Buffer} {item : Item} {x : σ} {s t : S} {a : α}
    (hcall : p.Call b (item.mapError .ofError) b') (h : handle x item s = .ok (.inl a) t) :
    Drives p handle b x s (.ok a t)
  | fails {b b' : Buffer} {item : Item} {x : σ} {s t : S} {e : ε}
    (hcall : p.Call b (item.mapError .ofError) b') (h : handle x item s = .error e t) :
    Drives p handle b x s (.error e t)
  | goesOn {b b' : Buffer} {item : Item} {x y : σ} {s t : S} {r : EStateM.Result ε S α}
    (hcall : p.Call b (item.mapError .ofError) b') (h : handle x item s = .ok (.inr y) t)
    (hrest : Drives p handle b' y t r) : Drives p handle b x s r

/-- A driver ends in one way only. -/
theorem Drives.unique (h : p.Drives handle b x t r) (h' : p.Drives handle b x t r') : r = r' := by
  induction h with
  | stops hcall h | fails hcall h =>
    cases h' with
    | stops hcall' h' | fails hcall' h' | goesOn hcall' h' =>
      obtain ⟨heq, -⟩ := hcall.unique hcall'
      cases mapError_ofError_injective heq
      cases h.symm.trans h'
      try rfl
  | goesOn hcall h _ ih =>
    cases h' with
    | stops hcall' h' | fails hcall' h' =>
      obtain ⟨heq, -⟩ := hcall.unique hcall'
      cases mapError_ofError_injective heq
      cases h.symm.trans h'
    | goesOn hcall' h' hrest' =>
      obtain ⟨heq, rfl⟩ := hcall.unique hcall'
      cases mapError_ofError_injective heq
      cases h.symm.trans h'
      exact ih hrest'

end Driving

end Procedure

end Lox
